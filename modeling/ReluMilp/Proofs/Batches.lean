import ReluMilp.Proofs.Corners
import ReluMilp.Proofs.Products
import ReluMilp.Proofs.Requests

/-!
# Batches of inputs

A layer on an array of any depth: the array times the transposed weights, plus the bias, which is repeated
along all leading dimensions. This is the evaluation of every row by itself.

* `flatMap_chunks`, `chunks_map` — pieces of pieces, and a function applied to pieces;
* `Tensor.Mapped` — an array with the same leading dimensions as another, whose rows are images of its rows;
* `Tensor.times?` — an array times a matrix, as a stack of matrices; `times?_eq` — row by row;
* `combine?_lastVector` — an array and a vector are combined row by row;
* `Layer.forwardArrays?`, `Network.forwardArrays?` — the evaluation by operations on whole arrays, with
  `forwardArrays?_eq`: it is that of the rows;
* `Tensor.part?` — the part of an array at an index; `Mapped.part?` — parts of arrays whose rows correspond;
* `forward_rowwise` — the values of an array are the values of its parts in the same positions.
-/

namespace ReluMilp

open Scalar

/-! ### Pieces -/

section Pieces

variable {α β : Type}

variable {n m : Nat} {lead : List Nat}

theorem chunks_one (n : Nat) (xs : List α) (h : xs.length = n) : chunks n 1 xs = [xs] := by
  simp [chunks, ← h]

/-- Pieces cut into `k` smaller ones each are the smaller pieces of the whole. -/
theorem flatMap_chunks {n k m : Nat} {xs : List α} (h : xs.length = m * (k * n)) :
    (chunks (k * n) m xs).flatMap (chunks n k) = chunks n (m * k) xs := by
  have hpiece : ∀ c ∈ chunks (k * n) m xs, c.length = k * n := length_of_mem_chunks h
  have hwidth : ∀ r ∈ (chunks (k * n) m xs).flatMap (chunks n k), r.length = n := by
    intro r hr
    obtain ⟨c, hc, hrc⟩ := List.mem_flatMap.1 hr
    exact length_of_mem_chunks (hpiece c hc) r hrc
  have hcount : ((chunks (k * n) m xs).flatMap (chunks n k)).length = m * k := by
    simp [List.length_flatMap]
  have hjoin : ((chunks (k * n) m xs).flatMap (chunks n k)).flatten = xs := by
    rw [List.flatMap_def, List.flatten_flatten, List.map_map]
    have hback : ∀ c ∈ chunks (k * n) m xs, (List.flatten ∘ chunks n k) c = c := by
      intro c hc
      exact flatten_chunks (hpiece c hc)
    rw [List.map_congr_left hback, List.map_id']
    exact flatten_chunks h
  have hall := chunks_flatten hwidth
  rw [hcount, hjoin] at hall
  exact hall.symm

theorem chunks_map (f : α → β) (n k : Nat) (xs : List α) :
    chunks n k (xs.map f) = (chunks n k xs).map (List.map f) := by
  induction k generalizing xs with
  | zero => rfl
  | succ k ih => simp [chunks, ← ih]

/-! ### Rows -/

theorem Tensor.flatten_rows {t : Tensor α} (h : t.shape = lead ++ [n]) : t.rows.flatten = t.entries := by
  have hlast : t.shape.getLast? = some n := by simp [h]
  have hlen := Tensor.length_eq_of_getLast? hlast
  simp only [Tensor.rows, hlast]
  exact flatten_chunks hlen

theorem Tensor.length_rows_eq {t : Tensor α} (h : t.shape = lead ++ [n]) : t.rows.length = volume lead := by
  rw [Tensor.length_rows (show t.shape.getLast? = some n by simp [h]), h, List.dropLast_concat]

theorem Tensor.length_of_mem_rows_eq {t : Tensor α} (h : t.shape = lead ++ [n]) :
    ∀ r ∈ t.rows, r.length = n :=
  Tensor.length_of_mem_rows (by simp [h])

/-- Entries that are written row by row are read row by row. -/
theorem Tensor.rows_of_entries {t : Tensor α} {rs : List (List α)} (h : t.shape = lead ++ [n])
    (he : t.entries = rs.flatten) (hcount : rs.length = volume lead) (hwidth : ∀ r ∈ rs, r.length = n) :
    t.rows = rs := by
  have heq : t = .ofRows lead n rs hcount hwidth := Tensor.eq_of_entries h he
  rw [heq, Tensor.rows_ofRows]

/-- A tensor with at least one dimension is known by its shape and its rows. -/
theorem Tensor.eq_of_rows {t u : Tensor α} (ht : t.shape = lead ++ [n]) (hu : u.shape = lead ++ [n])
    (h : t.rows = u.rows) : t = u := by
  apply Tensor.eq_of_entries (ht.trans hu.symm)
  rw [← Tensor.flatten_rows ht, ← Tensor.flatten_rows hu, h]

/-- An array and another one with the same leading dimensions, whose rows are images of the rows of the
first one. -/
structure Tensor.Mapped (f : List α → List β) (n m : Nat) (lead : List Nat) (t : Tensor α)
    (u : Tensor β) : Prop where
  shape : t.shape = lead ++ [n]
  image : u.shape = lead ++ [m]
  rows : u.rows = t.rows.map f

theorem Tensor.Mapped.unique {f : List α → List β} {t : Tensor α} {u u' : Tensor β}
    (h : t.Mapped f n m lead u) (h' : t.Mapped f n m lead u') : u = u' :=
  Tensor.eq_of_rows h.image h'.image (h.rows.trans h'.rows.symm)

end Pieces

/-! ### An array times a matrix -/

/-- The entries of an array times a matrix, given by its columns: a vector has a product with each column, a
matrix that of each of its rows, and a deeper array that of each of its items. -/
def timesEntries (columns : List (List Rat)) : List Nat → List Rat → List Rat
  | [], _ => []
  | [_], v => columns.map (dot v)
  | m :: k :: shape, xs =>
    (chunks (volume (k :: shape)) m xs).flatMap (timesEntries columns (k :: shape))

/-- An array times a matrix with as many rows as the last dimension of the array. -/
def Tensor.times? (t w : Tensor Rat) : Option (Tensor Rat) :=
  match w.shape with
  | [n, m] =>
    if t.shape.getLast? = some n then
      Tensor.ofEntries? (t.shape.dropLast ++ [m]) (timesEntries (Tensor.columns m w.rows) t.shape t.entries)
    else none
  | _ => none

/-- The product is taken row by row. -/
theorem timesEntries_eq (columns : List (List Rat)) {lead : List Nat} {n : Nat} {xs : List Rat}
    (h : xs.length = volume (lead ++ [n])) :
    timesEntries columns (lead ++ [n]) xs =
      (chunks n (volume lead) xs).flatMap fun v => columns.map (dot v) := by
  induction lead generalizing xs with
  | nil =>
    have hlen : xs.length = n := by simpa using h
    simp [timesEntries, chunks_one n xs hlen]
  | cons m lead ih =>
    have hvolume : volume (lead ++ [n]) = volume lead * n := by simp [volume_append]
    have hlen : xs.length = m * (volume lead * n) := by rw [h, ← hvolume]; rfl
    have hstep : timesEntries columns (m :: (lead ++ [n])) xs =
        (chunks (volume (lead ++ [n])) m xs).flatMap (timesEntries columns (lead ++ [n])) := by
      cases lead with
      | nil => rfl
      | cons k lead => rfl
    have hpiece : ∀ c ∈ chunks (volume lead * n) m xs, timesEntries columns (lead ++ [n]) c =
        (chunks n (volume lead) c).flatMap fun v => columns.map (dot v) := by
      intro c hc
      exact ih (by rw [hvolume]; exact length_of_mem_chunks hlen c hc)
    calc timesEntries columns (m :: lead ++ [n]) xs
        = (chunks (volume lead * n) m xs).flatMap (timesEntries columns (lead ++ [n])) := by
          rw [List.cons_append, hstep, hvolume]
      _ = (chunks (volume lead * n) m xs).flatMap fun c =>
            (chunks n (volume lead) c).flatMap fun v => columns.map (dot v) :=
          List.flatMap_congr hpiece
      _ = ((chunks (volume lead * n) m xs).flatMap (chunks n (volume lead))).flatMap fun v =>
            columns.map (dot v) := List.flatMap_assoc.symm
      _ = (chunks n (volume (m :: lead)) xs).flatMap fun v => columns.map (dot v) := by
          rw [flatMap_chunks hlen]; rfl

theorem times?_eq {t w : Tensor Rat} {lead : List Nat} {n m : Nat} (ht : t.shape = lead ++ [n])
    (hw : w.shape = [n, m]) :
    ∃ u, t.times? w = some u ∧ t.Mapped (fun v => (Tensor.columns m w.rows).map (dot v)) n m lead u := by
  have hlast : t.shape.getLast? = some n := by simp [ht]
  have hlen : t.entries.length = volume (lead ++ [n]) := by rw [t.length_eq, ht]
  have hentries : timesEntries (Tensor.columns m w.rows) t.shape t.entries =
      (t.rows.map fun v => (Tensor.columns m w.rows).map (dot v)).flatten := by
    rw [ht, timesEntries_eq _ hlen, List.flatMap_def]
    simp [Tensor.rows, ht]
  have hcount : (t.rows.map fun v => (Tensor.columns m w.rows).map (dot v)).length = volume lead := by
    simp [Tensor.length_rows_eq ht]
  have hwidth : ∀ r ∈ t.rows.map fun v => (Tensor.columns m w.rows).map (dot v), r.length = m := by
    intro r hr
    obtain ⟨v, -, rfl⟩ := List.mem_map.1 hr
    simp [Tensor.columns]
  have hvolume : (timesEntries (Tensor.columns m w.rows) t.shape t.entries).length =
      volume (t.shape.dropLast ++ [m]) := by
    rw [hentries, length_flatten_of_forall hwidth, hcount, ht, List.dropLast_concat, volume_append]
    simp
  have hshape : t.shape.dropLast ++ [m] = lead ++ [m] := by rw [ht, List.dropLast_concat]
  refine ⟨⟨_, _, hvolume⟩, ?_, ht, hshape, Tensor.rows_of_entries hshape hentries hcount hwidth⟩
  unfold Tensor.times?
  rw [hw]
  dsimp only
  rw [if_pos hlast]
  exact dif_pos hvolume

/-! ### An array and a vector -/

section Repeated

variable {α β γ : Type}

theorem commonDims?_last (lead : List Nat) (m : Nat) :
    commonDims? (lead ++ [m]) (List.replicate lead.length 1 ++ [m]) = some (lead ++ [m]) := by
  induction lead with
  | nil => simp [commonDims?]
  | cons k lead ih =>
    simp only [List.length_cons, List.replicate_succ, List.cons_append, commonDims?, ih, Option.bind_some]
    by_cases hk : k = 1
    · simp [hk]
    · simp [hk]

theorem commonShape?_last (lead : List Nat) (m : Nat) :
    commonShape? (lead ++ [m]) [m] = some (lead ++ [m]) := by
  simpa [commonShape?, padShape] using commonDims?_last lead m

theorem repeatEntries_self (shape : List Nat) {xs : List α} (h : xs.length = volume shape) :
    repeatEntries (shape.zip shape) xs = xs := by
  induction shape generalizing xs with
  | nil => rfl
  | cons m shape ih =>
    have hdims : (shape.zip shape).map (·.1) = shape := List.map_fst_zip le_rfl
    have hblock : ∀ c ∈ chunks (volume shape) m xs, repeatEntries (shape.zip shape) c = c := by
      intro c hc
      exact ih (length_of_mem_chunks h c hc)
    simp only [List.zip_cons_cons, repeatEntries, hdims, if_true]
    rw [List.map_congr_left hblock, List.map_id', flatten_chunks h]

/-- A vector is repeated along all leading dimensions. -/
theorem repeatEntries_last (lead : List Nat) {b : List α} {m : Nat} (h : b.length = m) :
    repeatEntries ((List.replicate lead.length 1 ++ [m]).zip (lead ++ [m])) b =
      (List.replicate (volume lead) b).flatten := by
  induction lead with
  | nil =>
    have hlen : b.length = volume [m] := by simp [h]
    simpa using repeatEntries_self [m] hlen
  | cons k lead ih =>
    have hdims : ((List.replicate lead.length 1 ++ [m]).zip (lead ++ [m])).map Prod.fst =
        List.replicate lead.length 1 ++ [m] := List.map_fst_zip (by simp)
    have hvolume : volume (List.replicate lead.length 1 ++ [m]) = m := by
      rw [volume_append]
      induction lead.length with
      | zero => simp
      | succ n ihn => simpa [List.replicate_succ] using ihn
    simp only [List.length_cons, List.replicate_succ, List.cons_append, List.zip_cons_cons, repeatEntries,
      hdims, hvolume, chunks_one m b h, List.map_cons, List.map_nil, ih]
    by_cases hk : 1 = k
    · simp [← hk]
    · rw [if_neg hk, List.flatten_singleton, volume_cons, ← List.flatten_replicate_replicate,
        List.flatten_flatten, List.map_replicate]

theorem zipWith_flatten (f : α → β → γ) {rs : List (List α)} {b : List β}
    (h : ∀ r ∈ rs, r.length = b.length) :
    List.zipWith f rs.flatten (List.replicate rs.length b).flatten =
      (rs.map fun r => List.zipWith f r b).flatten := by
  induction rs with
  | nil => rfl
  | cons r rs ih =>
    have hr : r.length = b.length := h r (by simp)
    simp only [List.flatten_cons, List.length_cons, List.replicate_succ, List.map_cons]
    rw [List.zipWith_append hr, ih fun r' hr' => h r' (by simp [hr'])]

/-- An array and a vector as long as its rows are combined row by row. -/
theorem combine?_lastVector (f : α → β → γ) {t : Tensor α} {b : List β} {lead : List Nat} {m : Nat}
    (ht : t.shape = lead ++ [m]) (hb : b.length = m) :
    ∃ u, t.combine? f (.ofVector b) = some u ∧ t.Mapped (fun r => List.zipWith f r b) m m lead u := by
  have hwidth : ∀ r ∈ t.rows, r.length = b.length := by
    rw [hb]
    exact Tensor.length_of_mem_rows_eq ht
  have hown : t.spread (lead ++ [m]) = t.rows.flatten := by
    rw [Tensor.flatten_rows ht]
    have hlen : t.entries.length = volume (lead ++ [m]) := by rw [t.length_eq, ht]
    simpa [Tensor.spread, ht, padShape] using repeatEntries_self (lead ++ [m]) hlen
  have hrepeated : (Tensor.ofVector b).spread (lead ++ [m]) = (List.replicate t.rows.length b).flatten := by
    rw [Tensor.length_rows_eq ht, ← repeatEntries_last lead hb]
    simp [Tensor.spread, Tensor.ofVector, padShape, hb]
  have hentries := zipWith_flatten f hwidth
  have himages : ∀ r ∈ t.rows.map fun r => List.zipWith f r b, r.length = m := by
    intro r hr
    obtain ⟨v, hv, rfl⟩ := List.mem_map.1 hr
    simp [hwidth v hv, hb]
  have hcount : (t.rows.map fun r => List.zipWith f r b).length = volume lead := by
    simp [Tensor.length_rows_eq ht]
  have hvolume : (t.rows.map fun r => List.zipWith f r b).flatten.length = volume (lead ++ [m]) := by
    rw [length_flatten_of_forall himages, hcount, volume_append]
    simp
  refine ⟨⟨lead ++ [m], _, hvolume⟩, ?_, ht, rfl, Tensor.rows_of_entries rfl rfl hcount himages⟩
  have hcommon : commonShape? t.shape (Tensor.ofVector b).shape = some (lead ++ [m]) := by
    rw [ht]
    show commonShape? (lead ++ [m]) [b.length] = _
    rw [hb, commonShape?_last]
  unfold Tensor.combine?
  rw [hcommon]
  show Tensor.ofEntries? (lead ++ [m]) (List.zipWith f (t.spread _) (Tensor.spread _ _)) = _
  rw [hown, hrepeated, hentries]
  exact dif_pos hvolume

end Repeated

/-! ### Layers on arrays -/

/-- The weights of a layer as a matrix with a row per neuron. -/
def Layer.matrix (l : Layer Rat) : Tensor Rat :=
  .ofRows [l.outputs] l.inputs l.weights (by simp [Layer.weights, Layer.outputs])
    (by simpa [Layer.weights] using l.conform)

/-- The values of a layer by operations on whole arrays: the array times the transposed weights, plus the
bias, and the activation on every entry. -/
def Layer.forwardArrays? (l : Layer Rat) (t : Tensor Rat) : Option (Tensor Rat) := do
  let products ← t.times? l.matrix.transpose
  let sums ← products.combine? (· + ·) (.ofVector l.bias)
  return sums.map l.activation.apply

/-- The columns of a transposed matrix are its rows. -/
theorem columns_transpose {w : Tensor Rat} {m n : Nat} (h : w.shape = [m, n]) :
    Tensor.columns m w.transpose.rows = w.rows := by
  rw [← (transpose_matrix (transpose_matrix h).1).2, rows_transpose (transpose_matrix h).1,
    rows_transpose h]
  have hcount : w.rows.length = m := length_rows_of_shape h
  refine List.ext_getElem (by simp [hcount]) fun i hi hi' => ?_
  have hwidth : w.rows[i].length = n :=
    Tensor.length_of_mem_rows (show w.shape.getLast? = some n by simp [h]) _ (List.getElem_mem hi')
  refine List.ext_getElem (by simp [hwidth]) fun j hj hj' => ?_
  simp [hi', hj']

/-- The affine values of a layer, from the columns of the transposed weights. -/
theorem Layer.affine_eq_preactivations (l : Layer Rat) (v : List Rat) :
    List.zipWith (· + ·) (l.weights.map (dot v)) l.bias = l.preactivations v := by
  unfold Layer.weights Layer.bias Layer.preactivations Neuron.preactivation
  rw [List.map_map, List.zipWith_map, List.zipWith_self]
  refine List.map_congr_left fun p _ => ?_
  show dot v p.weights + p.bias = _
  rw [dot_comm]

theorem Layer.forward_mapped {l : Layer Rat} {t : Tensor Rat} {lead : List Nat}
    (h : t.shape = lead ++ [l.inputs]) :
    ∃ u, l.forward t = .ok u ∧ t.Mapped l.eval l.inputs l.outputs lead u := by
  obtain ⟨u, hu, hshape, hrows⟩ := Layer.forward_shape h
  exact ⟨u, hu, h, hshape, hrows⟩

/-- Operations on whole arrays give the values of the rows, and take no other arrays. -/
theorem Layer.forwardArrays?_eq (l : Layer Rat) (t : Tensor Rat) :
    l.forwardArrays? t = (l.forward t).toOption := by
  have hmatrix : l.matrix.shape = [l.outputs, l.inputs] := rfl
  have htransposed := (transpose_matrix hmatrix).1
  by_cases h : t.shape.getLast? = some l.inputs
  · obtain ⟨lead, hlead⟩ : ∃ lead, t.shape = lead ++ [l.inputs] := by
      refine ⟨t.shape.dropLast, ?_⟩
      have hne : t.shape ≠ [] := by
        intro h0
        simp [h0] at h
      rw [List.getLast?_eq_some_getLast hne] at h
      rw [← Option.some.inj h, List.dropLast_concat_getLast]
    obtain ⟨products, hproducts, hp⟩ := times?_eq hlead htransposed
    obtain ⟨sums, hsums, hs⟩ := combine?_lastVector (· + ·) hp.image
      (show l.bias.length = l.outputs by simp [Layer.bias, Layer.outputs])
    have hvalues : t.Mapped l.eval l.inputs l.outputs lead (sums.map l.activation.apply) := by
      refine ⟨hlead, hs.image, ?_⟩
      have hrows : (sums.map l.activation.apply).rows = sums.rows.map (List.map l.activation.apply) := by
        have hlast : sums.shape.getLast? = some l.outputs := by simp [hs.image]
        simp only [Tensor.rows, Tensor.map, hlast]
        exact chunks_map _ _ _ _
      rw [hrows, hs.rows, hp.rows, List.map_map, List.map_map, columns_transpose hmatrix]
      refine List.map_congr_left fun v _ => ?_
      show (List.zipWith (· + ·) (l.matrix.rows.map (dot v)) l.bias).map l.activation.apply = l.eval v
      rw [show l.matrix.rows = l.weights from Tensor.rows_ofRows _ _ _ _ _, l.affine_eq_preactivations]
      rfl
    obtain ⟨u, hu, hmapped⟩ := Layer.forward_mapped hlead
    unfold Layer.forwardArrays?
    rw [hproducts, Option.bind_eq_bind, Option.bind_some, hsums, hu, hmapped.unique hvalues]
    rfl
  · have hnone : t.times? l.matrix.transpose = none := by
      unfold Tensor.times?
      rw [htransposed]
      exact if_neg h
    unfold Layer.forwardArrays? Layer.forward
    rw [hnone, dif_neg h]
    rfl

/-- The values of a network by operations on whole arrays, layer by layer. -/
def Network.forwardArrays? (n : Network Rat) (t : Tensor Rat) : Option (Tensor Rat) :=
  n.layers.foldlM (fun x l => l.forwardArrays? x) t

theorem Network.forwardArrays?_eq (n : Network Rat) (t : Tensor Rat) :
    n.forwardArrays? t = (n.forward t).toOption := by
  unfold Network.forwardArrays? Network.forward
  generalize n.layers = ls
  induction ls generalizing t with
  | nil => rfl
  | cons l ls ih =>
    rw [List.foldlM_cons, List.foldlM_cons, Layer.forwardArrays?_eq]
    cases l.forward t with
    | error e => rfl
    | ok u => exact ih u

/-! ### Parts of arrays -/

section Parts

variable {α β : Type}

/-- The part of an array at an index, which goes into the outermost dimensions first: an array with fewer
dimensions, the whole array for the empty index. -/
def Tensor.part? : Tensor α → List Nat → Option (Tensor α)
  | t, [] => some t
  | t, i :: index => t.items[i]?.bind fun item => item.part? index

/-- The items of an array are its outermost pieces. -/
theorem items_entries {t : Tensor α} {k : Nat} {shape : List Nat} (h : t.shape = k :: shape) :
    t.items.map (·.entries) = chunks (volume shape) k t.entries ∧ ∀ c ∈ t.items, c.shape = shape := by
  unfold Tensor.items
  split
  · rename_i h'
    cases h.symm.trans h'
  · rename_i m rest h'
    cases h.symm.trans h'
    constructor
    · rw [List.map_map]
      exact List.attach_map_subtype_val _
    · intro c hc
      obtain ⟨_, -, rfl⟩ := List.mem_map.1 hc
      rfl

/-- The rows of the items are pieces of the rows. -/
theorem rows_items {t : Tensor α} {k n : Nat} {lead : List Nat} (h : t.shape = (k :: lead) ++ [n]) :
    t.items.map Tensor.rows = chunks (volume lead) k t.rows := by
  obtain ⟨hentries, hshape⟩ := items_entries (show t.shape = k :: (lead ++ [n]) from h)
  have hvolume : volume (lead ++ [n]) = volume lead * n := by simp [volume_append]
  have hlen : t.entries.length = k * (volume lead * n) := by rw [t.length_eq, h, ← hvolume]; rfl
  have hitem : t.items.map Tensor.rows = (chunks (volume lead * n) k t.entries).map (chunks n (volume lead)) := by
    rw [← hvolume, ← hentries, List.map_map]
    refine List.map_congr_left fun c hc => ?_
    simp [Tensor.rows, hshape c hc]
  have hcount : ∀ rs ∈ t.items.map Tensor.rows, rs.length = volume lead := by
    rw [hitem]
    simp
  have hrows : (t.items.map Tensor.rows).flatten = t.rows := by
    rw [hitem, ← List.flatMap_def, flatMap_chunks hlen]
    simp only [Tensor.rows, h, List.getLast?_concat, List.dropLast_concat, volume_cons]
  have hall := chunks_flatten hcount
  rw [hrows, hitem, List.length_map, length_chunks] at hall
  rw [hitem, hall]

/-- The items of an array and of its images correspond. -/
theorem Tensor.Mapped.items {f : List α → List β} {n m k : Nat} {lead : List Nat} {t : Tensor α}
    {u : Tensor β} (h : t.Mapped f n m (k :: lead) u) :
    List.Forall₂ (fun c d => c.Mapped f n m lead d) t.items u.items := by
  have htimage := rows_items h.shape
  have huimage := rows_items h.image
  have hpair : u.items.map Tensor.rows = t.items.map fun c => c.rows.map f := by
    rw [huimage, h.rows, chunks_map, ← htimage, List.map_map]
    rfl
  have htshape := (items_entries h.shape).2
  have hushape := (items_entries h.image).2
  rw [List.forall₂_iff_get]
  have hlen : t.items.length = u.items.length := by
    simpa using (congrArg List.length hpair).symm
  refine ⟨hlen, fun i hi hi' => ⟨htshape _ (List.get_mem _ _), hushape _ (List.get_mem _ _), ?_⟩⟩
  have hget := congrArg (·[i]?) hpair
  simpa [hi, hi'] using hget

/-- The parts at one index correspond, as long as the index does not go into the rows. -/
theorem Tensor.Mapped.part? {f : List α → List β} {n m : Nat} {lead : List Nat} {t : Tensor α} {u : Tensor β}
    (h : t.Mapped f n m lead u) {index : List Nat} (hi : index.length ≤ lead.length) :
    Option.Rel (fun p q => p.Mapped f n m (lead.drop index.length) q) (t.part? index) (u.part? index) := by
  induction index generalizing t u lead with
  | nil => exact .some h
  | cons i index ih =>
    cases lead with
    | nil => simp at hi
    | cons k lead =>
      have hitems := h.items
      unfold Tensor.part?
      by_cases hlt : i < t.items.length
      · have hlt' : i < u.items.length := hitems.length_eq ▸ hlt
        rw [List.getElem?_eq_getElem hlt, List.getElem?_eq_getElem hlt']
        exact ih (hitems.get hlt hlt') (by simpa using hi)
      · have hlt' : ¬ i < u.items.length := hitems.length_eq ▸ hlt
        rw [List.getElem?_eq_none (not_lt.1 hlt), List.getElem?_eq_none (not_lt.1 hlt')]
        exact .none

end Parts

/-! ### Networks on arrays -/

theorem Network.forward_mapped {n : Network Rat} {t : Tensor Rat} {lead : List Nat}
    (h : t.shape = lead ++ [n.inputs]) :
    ∃ u, n.forward t = .ok u ∧ t.Mapped n.eval n.inputs n.outputs lead u := by
  obtain ⟨u, hu, hshape, hrows⟩ := n.forward_shape h
  exact ⟨u, hu, h, hshape, hrows⟩

/-- On an array whose last dimension fits, operations on whole arrays and the forward pass give the same
array. It has the same leading dimensions, each of its rows is the forward pass of the row in the same
position alone, and so is each of its parts. -/
theorem forward_rowwise (n : Network Rat) (t : Tensor Rat) (lead : List Nat)
    (h : t.shape = lead ++ [n.inputs]) :
    ∃ u, n.forward t = .ok u ∧ n.forwardArrays? t = some u ∧ u.shape = lead ++ [n.outputs] ∧
      List.Forall₂ (fun v r => n.forward (.ofVector v) = .ok (.ofVector r)) t.rows u.rows ∧
      ∀ index : List Nat, index.length ≤ lead.length →
        Option.Rel (fun p q => n.forward p = .ok q) (t.part? index) (u.part? index) := by
  obtain ⟨u, hu, hmapped⟩ := Network.forward_mapped h
  refine ⟨u, hu, ?_, hmapped.image, ?_, fun index hi => ?_⟩
  · rw [n.forwardArrays?_eq, hu]
    rfl
  · rw [hmapped.rows, List.forall₂_map_right_iff, List.forall₂_same]
    intro v hv
    exact n.forward_ofVector (Tensor.length_of_mem_rows_eq h v hv)
  · have hparts := hmapped.part? hi
    generalize t.part? index = p at hparts ⊢
    generalize u.part? index = q at hparts ⊢
    cases hparts with
    | none => exact .none
    | some hpart =>
      obtain ⟨q, hq, hmapped'⟩ := Network.forward_mapped hpart.shape
      exact .some (hpart.unique hmapped' ▸ hq)

/-- Two batches of one input each. -/
def Tensor.twoBatches : Tensor Rat := ⟨[2, 1, 1], [-3, 4], rfl⟩

theorem forward_rowwise_absolute :
    Tensor.twoBatches.shape = [2, 1] ++ [Network.absolute.inputs] ∧
    ∃ u, Network.absolute.forward .twoBatches = .ok u ∧
      Network.absolute.forwardArrays? .twoBatches = some u ∧
      u.shape = [2, 1] ++ [Network.absolute.outputs] ∧
      List.Forall₂ (fun v r => Network.absolute.forward (.ofVector v) = .ok (.ofVector r))
        Tensor.twoBatches.rows u.rows ∧
      ∀ index : List Nat, index.length ≤ 2 → Option.Rel (fun p q => Network.absolute.forward p = .ok q)
        (Tensor.twoBatches.part? index) (u.part? index) :=
  ⟨rfl, forward_rowwise .absolute .twoBatches [2, 1] rfl⟩

example : (Network.absolute.forward .twoBatches).toOption.map (·.entries) = some [3, 4] := by decide +kernel

end ReluMilp
