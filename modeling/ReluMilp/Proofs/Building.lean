import ReluMilp.Formulation.Build
import ReluMilp.Proofs.Encoding

/-!
# What a build adds to a model

* `Model.Adds` — a model grown by variables and rows with given numbers; `Adds.mem_vars` — a variable was
  there before, or has one of the numbers;
* `unitDrafts`, `mem_unitDrafts` — the rows of a hidden layer, and those of one neuron among them;
* `LayerAdded`, `addHidden_added` — one hidden layer: its units stand in the model, and nothing else
  was added;
* `HiddenAdded`, `LayerAdded.cons` — hidden layers one after the other.
-/

namespace ReluMilp

variable {α : Type}

/-! ### Growth by numbers -/

/-- A model grown by variables and rows with given numbers. -/
def Model.Adds (m m' : Model α) (vars : List VarId) (rows : List RowId) : Prop :=
  ∃ vs rs, m.Grown m' vs rs ∧ vs.map (·.id) = vars ∧ (rs.map (·.id)).Perm rows

namespace Model.Adds

variable {m m₁ m₂ : Model α} {vars vars₁ vars₂ : List VarId} {rows rows₁ rows₂ : List RowId}

theorem refl (m : Model α) : m.Adds m [] [] := ⟨[], [], Grown.refl m, rfl, .nil⟩

theorem trans (h₁ : m.Adds m₁ vars₁ rows₁) (h₂ : m₁.Adds m₂ vars₂ rows₂) :
    m.Adds m₂ (vars₁ ++ vars₂) (rows₁ ++ rows₂) := by
  obtain ⟨vs₁, rs₁, hg₁, hv₁, hr₁⟩ := h₁
  obtain ⟨vs₂, rs₂, hg₂, hv₂, hr₂⟩ := h₂
  refine ⟨vs₁ ++ vs₂, rs₁ ++ rs₂, hg₁.trans hg₂, ?_, ?_⟩
  · rw [List.map_append, hv₁, hv₂]
  · rw [List.map_append]
    exact hr₁.append hr₂

theorem perm (h : m.Adds m₁ vars rows) (hp : rows.Perm rows₁) : m.Adds m₁ vars rows₁ := by
  obtain ⟨vs, rs, hg, hv, hr⟩ := h
  exact ⟨vs, rs, hg, hv, hr.trans hp⟩

theorem wellFormed (h : m.Adds m₁ vars rows) (hm : m.WellFormed) : m₁.WellFormed := by
  obtain ⟨vs, rs, hg, _, _⟩ := h
  exact hg.wellFormed hm

theorem keeps (h : m.Adds m₁ vars rows) : m.Keeps m₁ [] := by
  obtain ⟨vs, rs, hg, _, _⟩ := h
  exact hg.keeps

theorem nextVar_le (h : m.Adds m₁ vars rows) : m.nextVar ≤ m₁.nextVar := by
  obtain ⟨vs, rs, hg, _, _⟩ := h
  exact hg.nextVar_le

theorem mem_vars (h : m.Adds m₁ vars rows) {v : Variable α} (hv : v ∈ m₁.vars) :
    v ∈ m.vars ∨ v.id ∈ vars := by
  obtain ⟨vs, rs, hg, rfl, _⟩ := h
  rw [hg.vars] at hv
  exact (List.mem_append.1 hv).imp_right List.mem_map_of_mem

theorem vars_nodup (h : m.Adds m₁ vars rows) : vars.Nodup := by
  obtain ⟨vs, rs, hg, rfl, _⟩ := h
  exact hg.vars_nodup

theorem rows_nodup (h : m.Adds m₁ vars rows) : rows.Nodup := by
  obtain ⟨vs, rs, hg, _, hr⟩ := h
  exact hr.nodup hg.rows_nodup

theorem vars_new (h : m.Adds m₁ vars rows) {id : VarId} (hid : id ∈ vars) :
    m.nextVar ≤ id ∧ id < m₁.nextVar := by
  obtain ⟨vs, rs, hg, rfl, _⟩ := h
  obtain ⟨v, hv, rfl⟩ := List.mem_map.1 hid
  exact hg.vars_new v hv

theorem rows_new (h : m.Adds m₁ vars rows) {id : RowId} (hid : id ∈ rows) :
    m.nextRow ≤ id ∧ id < m₁.nextRow := by
  obtain ⟨vs, rs, hg, _, hr⟩ := h
  obtain ⟨r, hr, rfl⟩ := List.mem_map.1 (hr.mem_iff.2 hid)
  exact hg.rows_new r hr

end Model.Adds

theorem adds_withVars (m : Model α) (names : List String) (kind : VarKind) (lower upper : Limit α) :
    m.Adds (m.withVars names kind lower upper) (List.range' m.nextVar names.length) [] :=
  ⟨_, _, grown_withVars m names kind lower upper, map_id_newVars m names kind lower upper, .nil⟩

theorem mem_withVars (m : Model α) (names : List String) (kind : VarKind) (lower upper : Limit α)
    {id : VarId} (h : id ∈ List.range' m.nextVar names.length) :
    ∃ name, ⟨id, name, kind, lower, upper⟩ ∈ (m.withVars names kind lower upper).vars := by
  obtain ⟨hle, hlt⟩ := List.mem_range'_1.1 h
  obtain ⟨k, rfl⟩ : ∃ k, id = m.nextVar + k := ⟨id - m.nextVar, (Nat.add_sub_cancel' hle).symm⟩
  have hk : k < names.length := Nat.lt_of_add_lt_add_left hlt
  refine ⟨nameOrNumber "C" (m.nextVar + k) names[k], List.mem_append_right _ ?_⟩
  exact mem_number.2 ⟨k, names[k], List.getElem?_eq_getElem hk, by rw [Nat.zero_add]⟩

/-! ### Hidden units -/

theorem getElem?_flatten_pairs {β γ : Type} (f g : Nat → β → γ) (k : Nat) (bs : List β) (i : Nat) :
    (number (fun j b => [f j b, g j b]) k bs).flatten[2 * i]? = bs[i]?.map (f (k + i)) ∧
      (number (fun j b => [f j b, g j b]) k bs).flatten[2 * i + 1]? = bs[i]?.map (g (k + i)) := by
  induction bs generalizing k i with
  | nil => exact ⟨rfl, rfl⟩
  | cons b bs ih =>
    cases i with
    | zero => exact ⟨rfl, rfl⟩
    | succ i =>
      have h := ih (k + 1) i
      rw [Nat.add_right_comm, Nat.add_assoc] at h
      exact h

theorem length_flatten_pairs {β γ : Type} (f g : Nat → β → γ) (k : Nat) (bs : List β) :
    (number (fun j b => [f j b, g j b]) k bs).flatten.length = 2 * bs.length := by
  induction bs generalizing k with
  | nil => rfl
  | cons b bs ih =>
    rw [number, List.flatten_cons, List.length_append, ih, List.length_cons, List.length_cons,
      List.length_cons, List.length_nil]
    omega

section Units

variable {base n : Nat} {xs ss zs : List VarId}

theorem unitsFrom_eq (base n : Nat) (xs ss zs : List VarId) :
    unitsFrom base n xs ss zs = number (fun i (p : VarId × VarId × VarId) =>
      ⟨p.1, p.2.1, p.2.2, base + 2 * i, base + 2 * i + 1, base + 2 * n + i⟩) 0
      (xs.zip (ss.zip zs)) := rfl

theorem length_unitsFrom (base : Nat) (hx : xs.length = n) (hs : ss.length = n) (hz : zs.length = n) :
    (unitsFrom base n xs ss zs).length = n := by
  rw [unitsFrom_eq, length_number, List.length_zip, List.length_zip, hx, hs, hz, min_self, min_self]

theorem getElem?_unitsFrom {i : Nat} {u : HiddenUnit} (h : (unitsFrom base n xs ss zs)[i]? = some u) :
    xs[i]? = some u.x ∧ ss[i]? = some u.s ∧ zs[i]? = some u.z ∧ u.upperRow = base + 2 * i ∧
      u.lowerRow = base + 2 * i + 1 ∧ u.affineRow = base + 2 * n + i := by
  rw [unitsFrom_eq, getElem?_number, Option.map_eq_some_iff, Nat.zero_add] at h
  obtain ⟨⟨x, s, z⟩, hp, rfl⟩ := h
  obtain ⟨hx, hsz⟩ := List.getElem?_zip_eq_some.1 hp
  obtain ⟨hs, hz⟩ := List.getElem?_zip_eq_some.1 hsz
  exact ⟨hx, hs, hz, rfl, rfl, rfl⟩

theorem map_unitsFrom {β : Type} {f : HiddenUnit → β} {bs : List β} (hx : xs.length = n)
    (hs : ss.length = n) (hz : zs.length = n) (hb : bs.length = n)
    (h : ∀ (i : Nat) u, (unitsFrom base n xs ss zs)[i]? = some u → bs[i]? = some (f u)) :
    (unitsFrom base n xs ss zs).map f = bs := by
  have hl := length_unitsFrom base hx hs hz
  apply List.ext_getElem?
  intro i
  rw [List.getElem?_map]
  cases hu : (unitsFrom base n xs ss zs)[i]? with
  | some u => exact (h i u hu).symm
  | none =>
    have hi := List.getElem?_eq_none_iff.1 hu
    exact (List.getElem?_eq_none (by omega)).symm

theorem unitVars_unitsFrom (hx : xs.length = n) (hs : ss.length = n) (hz : zs.length = n) :
    Body.unitVars (unitsFrom base n xs ss zs) = xs ++ ss ++ zs := by
  unfold Body.unitVars
  rw [map_unitsFrom hx hs hz hx fun i u hu => (getElem?_unitsFrom hu).1,
    map_unitsFrom hx hs hz hs fun i u hu => (getElem?_unitsFrom hu).2.1,
    map_unitsFrom hx hs hz hz fun i u hu => (getElem?_unitsFrom hu).2.2.1]

theorem perm_unitRows_unitsFrom (hx : xs.length = n) (hs : ss.length = n) (hz : zs.length = n) :
    (List.range' base (2 * n + n)).Perm (Body.unitRows (unitsFrom base n xs ss zs)) := by
  have hl := length_unitsFrom base hx hs hz
  have hunit : ∀ i, i < n → ∃ u ∈ unitsFrom base n xs ss zs, u.upperRow = base + 2 * i ∧
      u.lowerRow = base + 2 * i + 1 ∧ u.affineRow = base + 2 * n + i := by
    intro i hi
    have hu := List.getElem?_eq_getElem (l := unitsFrom base n xs ss zs) (i := i) (by omega)
    exact ⟨_, List.mem_of_getElem? hu, (getElem?_unitsFrom hu).2.2.2⟩
  refine (List.subperm_of_subset List.nodup_range' ?_).perm_of_length_le ?_
  · intro (a : Nat) ha
    obtain ⟨hle, hlt⟩ := List.mem_range'_1.1 ha
    rw [mem_unitRows]
    by_cases h : a < base + 2 * n
    · obtain ⟨u, hu, hup, hlo, _⟩ := hunit ((a - base) / 2) (by omega)
      rcases Nat.mod_two_eq_zero_or_one (a - base) with h2 | h2
      · have ha : a = base + 2 * ((a - base) / 2) := by omega
        exact ⟨u, hu, .inr (.inl (ha.trans hup.symm))⟩
      · have ha : a = base + 2 * ((a - base) / 2) + 1 := by omega
        exact ⟨u, hu, .inr (.inr (ha.trans hlo.symm))⟩
    · obtain ⟨u, hu, _, _, haf⟩ := hunit (a - base - 2 * n) (by omega)
      have ha : a = base + 2 * n + (a - base - 2 * n) := by omega
      exact ⟨u, hu, .inl (ha.trans haf.symm)⟩
  · rw [Body.unitRows, List.length_append, List.length_append, List.length_map, List.length_map,
      List.length_map, hl, List.length_range']
    omega

end Units

variable [Scalar α]

theorem adds_withRows (m : Model α) (drafts : List (RowDraft α))
    (h : ∀ d ∈ drafts, ∀ t ∈ d.terms, t.var < m.nextVar) :
    m.Adds (m.withRows drafts) [] (List.range' m.nextRow drafts.length) :=
  ⟨_, _, grown_withRows m drafts h, rfl, by rw [map_id_newRows]⟩

theorem mem_withRows (m : Model α) {drafts : List (RowDraft α)} {k : Nat} {d : RowDraft α}
    (h : drafts[k]? = some d) : d.toRow (m.nextRow + k) ∈ (m.withRows drafts).rows :=
  List.mem_append_right _ (mem_number.2 ⟨k, d, h, by rw [Nat.zero_add]⟩)

/-! ### Vectors of variables -/

omit [Scalar α] in
@[simp] theorem length_elementNames (name : String) (n : Nat) : (elementNames name n).length = n := by
  rw [elementNames, List.length_map, List.length_range]

omit [Scalar α] in
theorem addVector_eq_ok {name : String} {n : Nat} {kind : VarKind} {lower upper : Limit α}
    {ids : List VarId} {w w' : Workspace α} (h : addVector name n kind lower upper w = .ok ids w') :
    w'.model = w.model.withVars (elementNames name n) kind lower upper ∧
      ids = List.range' w.model.nextVar n := by
  obtain ⟨m, hm, rfl⟩ := Action.update_eq_ok.1 h
  obtain ⟨rfl, rfl⟩ := addVars_eq_ok hm
  exact ⟨rfl, by rw [length_elementNames]⟩

omit [Scalar α] in
theorem nextRow_eq_ok {base : RowId} {w w' : Workspace α}
    (h : (nextRow : Action α RowId) w = .ok base w') : base = w.model.nextRow ∧ w' = w := by
  obtain ⟨m, v, hm, hp⟩ := Action.bind_eq_ok.1 h
  obtain ⟨rfl, rfl⟩ := Action.model_eq_ok.1 hm
  obtain ⟨rfl, rfl⟩ := Action.pure_eq_ok.1 hp
  exact ⟨rfl, rfl⟩

omit [Scalar α] in
theorem addVector_adds {name : String} {n : Nat} {kind : VarKind} {lower upper : Limit α}
    {ids : List VarId} {w w' : Workspace α} (h : addVector name n kind lower upper w = .ok ids w') :
    w.model.Adds w'.model ids [] := by
  obtain ⟨hm, rfl⟩ := addVector_eq_ok h
  have ha := adds_withVars w.model (elementNames name n) kind lower upper
  rw [length_elementNames] at ha
  rw [hm]
  exact ha

omit [Scalar α] in
theorem mem_addVector {name : String} {n : Nat} {kind : VarKind} {lower upper : Limit α}
    {ids : List VarId} {id : VarId} {w w' : Workspace α}
    (h : addVector name n kind lower upper w = .ok ids w') (hid : id ∈ ids) :
    ∃ t, ⟨id, t, kind, lower, upper⟩ ∈ w'.model.vars := by
  obtain ⟨hm, rfl⟩ := addVector_eq_ok h
  rw [hm]
  apply mem_withVars
  rw [length_elementNames]
  exact hid

/-! ### Hidden layers -/

/-- The upper and the lower draft of every neuron of a layer. -/
def pairDrafts (name : Value) (k : Nat) (xs ss zs : List VarId) (is : List (Interval α)) :
    List (RowDraft α) :=
  (number (fun i (p : (VarId × VarId × VarId) × Interval α) =>
    [upperDraft (unitRowName name "relu_ub" (indexValue k) (indexValue i)) p.1.1 p.1.2.2 p.2.upper,
      lowerDraft (unitRowName name "relu_lb" (indexValue k) (indexValue i)) p.1.2.1 p.1.2.2 p.2.lower])
    0 ((xs.zip (ss.zip zs)).zip is)).flatten

omit [Scalar α] in
theorem flatMap_rows_number {β : Type} (f : Nat → β → List (RowBlock α)) (k : Nat) (bs : List β) :
    (number f k bs).flatten.flatMap (·.rows) =
      (number (fun i b => (f i b).flatMap (·.rows)) k bs).flatten := by
  induction bs generalizing k with
  | nil => rfl
  | cons b bs ih =>
    rw [number, number, List.flatten_cons, List.flatten_cons, List.flatMap_append, ih]

theorem flatMap_rows_layer (name : Value) (k : Nat) (xs ss zs : List VarId) (is : List (Interval α))
    (affine : List (RowDraft α)) :
    (layerBigMBlocks name k xs ss zs is ++ [(⟨true, affine⟩ : RowBlock α)]).flatMap (·.rows) =
      pairDrafts name k xs ss zs is ++ affine := by
  rw [List.flatMap_append, layerBigMBlocks, flatMap_rows_number, List.flatMap_singleton]
  rfl

section Drafts

variable {name : Value} {k i : Nat} {xs ss zs prev : List VarId} {is : List (Interval α)} {x s z : VarId}
  {b : Interval α} {l : Layer α} {n : Neuron α}

theorem length_pairDrafts (name : Value) (k : Nat) (hx : xs.length = l.outputs) (hs : ss.length = l.outputs)
    (hz : zs.length = l.outputs) (hi : is.length = l.outputs) :
    (pairDrafts name k xs ss zs is).length = 2 * l.outputs := by
  rw [pairDrafts, length_flatten_pairs, List.length_zip, List.length_zip, List.length_zip, hx, hs, hz, hi,
    min_self, min_self, min_self]

theorem getElem?_elementNames (t : String) {n i : Nat} (h : i < n) :
    (elementNames t n)[i]? = some (t ++ "[" ++ toString i ++ "]") := by
  rw [elementNames, List.getElem?_map, List.getElem?_range h]
  rfl

theorem getElem?_pairDrafts (name : Value) (k : Nat) (hx : xs[i]? = some x) (hs : ss[i]? = some s) (hz : zs[i]? = some z)
    (hb : is[i]? = some b) :
    (pairDrafts name k xs ss zs is)[2 * i]? =
        some (upperDraft (unitRowName name "relu_ub" (indexValue k) (indexValue i)) x z b.upper) ∧
      (pairDrafts name k xs ss zs is)[2 * i + 1]? =
        some (lowerDraft (unitRowName name "relu_lb" (indexValue k) (indexValue i)) s z b.lower) := by
  have hp : ((xs.zip (ss.zip zs)).zip is)[i]? = some ((x, s, z), b) :=
    List.getElem?_zip_eq_some.2 ⟨List.getElem?_zip_eq_some.2
      ⟨hx, List.getElem?_zip_eq_some.2 ⟨hs, hz⟩⟩, hb⟩
  unfold pairDrafts
  rw [(getElem?_flatten_pairs _ _ 0 _ i).1, (getElem?_flatten_pairs _ _ 0 _ i).2, hp, Nat.zero_add]
  exact ⟨rfl, rfl⟩

theorem length_layerDrafts (t : String) (hx : xs.length = l.outputs) (hs : ss.length = l.outputs) :
    (layerDrafts t xs ss l prev).length = l.outputs := by
  have hn : l.neurons.length = l.outputs := rfl
  rw [layerDrafts, List.length_zipWith, length_elementNames, List.length_zip, List.length_zip, hx, hs, hn,
    min_self, min_self, min_self]

theorem getElem?_layerDrafts (t : String) (prev : List VarId) (hx : xs[i]? = some x) (hs : ss[i]? = some s)
    (hn : l.neurons[i]? = some n) :
    (layerDrafts t xs ss l prev)[i]? = some (hiddenDraft (t ++ "[" ++ toString i ++ "]") x s n prev) := by
  have hi : i < l.outputs := (List.getElem?_eq_some_iff.1 hn).1
  have hp : ((xs.zip ss).zip l.neurons)[i]? = some ((x, s), n) :=
    List.getElem?_zip_eq_some.2 ⟨List.getElem?_zip_eq_some.2 ⟨hx, hs⟩, hn⟩
  unfold layerDrafts
  rw [List.getElem?_zipWith, getElem?_elementNames t hi, hp]

theorem terms_pairDrafts {d : RowDraft α} {t : Term α} (hd : d ∈ pairDrafts name k xs ss zs is)
    (ht : t ∈ d.terms) : t.var ∈ xs ++ ss ++ zs := by
  obtain ⟨ds, hds, hd⟩ := List.mem_flatten.1 hd
  obtain ⟨i, ⟨⟨x, s, z⟩, b⟩, hp, rfl⟩ := mem_number.1 hds
  obtain ⟨hx, hsz⟩ := List.of_mem_zip (List.of_mem_zip (List.mem_of_getElem? hp)).1
  obtain ⟨hs, hz⟩ := List.of_mem_zip hsz
  rw [List.mem_append, List.mem_append]
  rcases List.mem_pair.1 hd with rfl | rfl
  · rcases List.mem_pair.1 ht with rfl | rfl
    · exact .inl (.inl hx)
    · exact .inr hz
  · rcases List.mem_pair.1 ht with rfl | rfl
    · exact .inl (.inr hs)
    · exact .inr hz

theorem terms_layerDrafts {t' : String} {d : RowDraft α} {t : Term α}
    (hd : d ∈ layerDrafts t' xs ss l prev) (ht : t ∈ d.terms) : t.var ∈ xs ++ ss ++ prev := by
  obtain ⟨i, hi⟩ := List.mem_iff_getElem?.1 hd
  obtain ⟨e, ⟨⟨x, s⟩, n⟩, -, hp, rfl⟩ := List.getElem?_zipWith_eq_some.1 hi
  obtain ⟨hx, hs⟩ := List.of_mem_zip (List.of_mem_zip (List.mem_of_getElem? hp)).1
  rw [List.mem_append, List.mem_append]
  rcases List.mem_cons.1 ht with rfl | ht
  · exact .inl (.inl hx)
  rcases List.mem_cons.1 ht with rfl | ht
  · exact .inl (.inr hs)
  · exact .inr (mem_negatedTerms ht)

/-- The rows of a hidden layer, those with a binary variable first. -/
def unitDrafts (name : Value) (k : Nat) (xs ss zs : List VarId) (is : List (Interval α)) (l : Layer α)
    (prev : List VarId) : List (RowDraft α) :=
  pairDrafts name k xs ss zs is ++ layerDrafts (layerName name "mix" k) xs ss l prev

theorem length_unitDrafts (name : Value) (k : Nat) (prev : List VarId) (hx : xs.length = l.outputs)
    (hs : ss.length = l.outputs) (hz : zs.length = l.outputs) (hi : is.length = l.outputs) :
    (unitDrafts name k xs ss zs is l prev).length = 2 * l.outputs + l.outputs := by
  rw [unitDrafts, List.length_append, length_pairDrafts name k hx hs hz hi, length_layerDrafts _ hx hs]

/-- The rows of a hidden layer speak of its variables and of those it reads. -/
theorem terms_unitDrafts {P : VarId → Prop} (hvars : ∀ id ∈ xs ++ ss ++ zs, P id)
    (hprev : ∀ id ∈ prev, P id) : ∀ d ∈ unitDrafts name k xs ss zs is l prev, ∀ t ∈ d.terms, P t.var := by
  intro d hd t ht
  rcases List.mem_append.1 hd with hd | hd
  · exact hvars _ (terms_pairDrafts hd ht)
  · rcases List.mem_append.1 (terms_layerDrafts hd ht) with hxs | hp
    · exact hvars _ (List.mem_append_left _ hxs)
    · exact hprev _ hp

/-- The three rows of one neuron once those of its layer are in a model. -/
theorem mem_unitDrafts (m : Model α) (name : Value) (k : Nat) (prev : List VarId)
    (hxl : xs.length = l.outputs) (hsl : ss.length = l.outputs) (hzl : zs.length = l.outputs)
    (hil : is.length = l.outputs) (hx : xs[i]? = some x) (hs : ss[i]? = some s) (hz : zs[i]? = some z)
    (hb : is[i]? = some b) (hn : l.neurons[i]? = some n) :
    (upperDraft (unitRowName name "relu_ub" (indexValue k) (indexValue i)) x z b.upper).toRow
        (m.nextRow + 2 * i) ∈ (m.withRows (unitDrafts name k xs ss zs is l prev)).rows ∧
      (lowerDraft (unitRowName name "relu_lb" (indexValue k) (indexValue i)) s z b.lower).toRow
        (m.nextRow + 2 * i + 1) ∈ (m.withRows (unitDrafts name k xs ss zs is l prev)).rows ∧
      (hiddenDraft (layerName name "mix" k ++ "[" ++ toString i ++ "]") x s n prev).toRow
        (m.nextRow + 2 * l.outputs + i) ∈ (m.withRows (unitDrafts name k xs ss zs is l prev)).rows := by
  obtain ⟨hu, hl⟩ := getElem?_pairDrafts name k hx hs hz hb
  have ha := getElem?_layerDrafts (layerName name "mix" k) prev hx hs hn
  have hpl := length_pairDrafts name k hxl hsl hzl hil
  have hi : i < l.outputs := by
    have := (List.getElem?_eq_some_iff.1 hb).1
    omega
  unfold unitDrafts
  refine ⟨mem_withRows m ?_, ?_, ?_⟩
  · rw [List.getElem?_append_left (by omega)]
    exact hu
  · rw [Nat.add_assoc]
    apply mem_withRows
    rw [List.getElem?_append_left (by omega)]
    exact hl
  · rw [Nat.add_assoc]
    apply mem_withRows
    rw [List.getElem?_append_right (by omega), hpl, Nat.add_sub_cancel_left]
    exact ha

end Drafts

/-- A hidden layer was added to a model: its units stand there, and nothing else is new. -/
structure LayerAdded (m m' : Model α) (prev : List VarId) (l : Layer α) (us : List HiddenUnit)
    (is : List (Interval α)) : Prop where
  adds : m.Adds m' (Body.unitVars us) (Body.unitRows us)
  stands : Forall₃ (HiddenUnit.Stands m' prev) l.neurons us is

/-- The vectors of variables of a hidden layer, and the model with its rows. -/
theorem addHidden_eq_ok {name : Value} {k : Nat} {prev : List VarId} {l : Layer α} {is : List (Interval α)}
    {us : List HiddenUnit} {w w' : Workspace α} (h : addHidden name k prev l is w = .ok us w') :
    ∃ xs ss zs w₁ w₂ w₃,
      addVector (layerName name "x" k) l.outputs .continuous (.finite 0) .posInf w = .ok xs w₁ ∧
      addVector (layerName name "s" k) l.outputs .continuous (.finite 0) .posInf w₁ = .ok ss w₂ ∧
      addVector (layerName name "z" k) l.outputs .binary (.finite 0) (.finite 1) w₂ = .ok zs w₃ ∧
      w'.model = w₃.model.withRows (unitDrafts name k xs ss zs is l prev) ∧
      us = unitsFrom w₃.model.nextRow l.outputs xs ss zs := by
  obtain ⟨xs, w₁, hax, h⟩ := Action.bind_eq_ok.1 h
  obtain ⟨ss, w₂, has, h⟩ := Action.bind_eq_ok.1 h
  obtain ⟨zs, w₃, haz, h⟩ := Action.bind_eq_ok.1 h
  obtain ⟨base, w₄, hbase, h⟩ := Action.bind_eq_ok.1 h
  obtain ⟨rows, w₅, hrows, h⟩ := Action.bind_eq_ok.1 h
  obtain ⟨rfl, rfl⟩ := Action.pure_eq_ok.1 h
  obtain ⟨rfl, rfl⟩ := nextRow_eq_ok hbase
  obtain ⟨h₄, -⟩ := Action.commit_eq_ok hrows
  rw [flatMap_rows_layer, ← unitDrafts] at h₄
  exact ⟨xs, ss, zs, w₁, w₂, w₄, hax, has, haz, h₄, rfl⟩

theorem addHidden_added {name : Value} {k : Nat} {prev : List VarId} {l : Layer α}
    {is : List (Interval α)} {us : List HiddenUnit} {w w' : Workspace α}
    (hprev : ∀ id ∈ prev, id < w.model.nextVar) (his : is.length = l.outputs)
    (h : addHidden name k prev l is w = .ok us w') : LayerAdded w.model w'.model prev l us is := by
  obtain ⟨xs, ss, zs, w₁, w₂, w₃, hax, has, haz, h₄, rfl⟩ := addHidden_eq_ok h
  obtain ⟨h₁, hxs⟩ := addVector_eq_ok hax
  obtain ⟨h₂, hss⟩ := addVector_eq_ok has
  obtain ⟨h₃, hzs⟩ := addVector_eq_ok haz
  have hxl : xs.length = l.outputs := by rw [hxs, List.length_range']
  have hsl : ss.length = l.outputs := by rw [hss, List.length_range']
  have hzl : zs.length = l.outputs := by rw [hzs, List.length_range']
  have ha₁ := addVector_adds hax
  have ha₂ := addVector_adds has
  have ha₃ := addVector_adds haz
  have hvars := (ha₁.trans ha₂).trans ha₃
  have hadd := adds_withRows w₃.model (unitDrafts name k xs ss zs is l prev)
    (terms_unitDrafts (P := fun id => id < w₃.model.nextVar) (fun id hid => (hvars.vars_new hid).2)
      fun id hid => (hprev id hid).trans_le hvars.nextVar_le)
  rw [← h₄, length_unitDrafts name k prev hxl hsl hzl his] at hadd
  refine ⟨?_, Forall₃.of_getElem? (length_unitsFrom _ hxl hsl hzl) his ?_⟩
  · rw [unitVars_unitsFrom hxl hsl hzl, ← List.append_nil (xs ++ ss ++ zs)]
    exact (hvars.trans hadd).perm (perm_unitRows_unitsFrom hxl hsl hzl)
  · intro i n u b hn hu hb
    obtain ⟨hx, hs, hz, hup, hlo, haf⟩ := getElem?_unitsFrom hu
    obtain ⟨hupper, hlower, haffine⟩ :=
      mem_unitDrafts w₃.model name k prev hxl hsl hzl his hx hs hz hb hn
    rw [← h₄] at hupper hlower haffine
    rw [← hup] at hupper
    rw [← hlo] at hlower
    rw [← haf] at haffine
    refine ⟨?_, ?_, ?_, ⟨_, hupper⟩, ⟨_, hlower⟩, ⟨_, haffine⟩⟩
    · exact (mem_addVector hax (List.mem_of_getElem? hx)).imp fun _ hv =>
        ((ha₂.trans ha₃).trans hadd).keeps.vars _ hv
    · exact (mem_addVector has (List.mem_of_getElem? hs)).imp fun _ hv =>
        (ha₃.trans hadd).keeps.vars _ hv
    · exact (mem_addVector haz (List.mem_of_getElem? hz)).imp fun _ hv => hadd.keeps.vars _ hv

/-- Hidden layers were added to a model, one after the other. -/
structure HiddenAdded (m m' : Model α) (prev : List VarId) (ls : List (Layer α))
    (uss : List (List HiddenUnit)) (iss : List (List (Interval α))) : Prop where
  adds : m.Adds m' (uss.flatMap Body.unitVars) (uss.flatMap Body.unitRows)
  stands : Layerwise (HiddenUnit.Stands m') prev ls uss iss

theorem HiddenAdded.nil {m : Model α} {prev : List VarId} : HiddenAdded m m prev [] [] [] :=
  ⟨.refl m, .nil⟩

theorem LayerAdded.cons {m m₁ m' : Model α} {prev : List VarId} {l : Layer α} {us : List HiddenUnit}
    {is : List (Interval α)} {ls : List (Layer α)} {uss : List (List HiddenUnit)}
    {iss : List (List (Interval α))} (h : LayerAdded m m₁ prev l us is)
    (h' : HiddenAdded m₁ m' (us.map (·.x)) ls uss iss) :
    HiddenAdded m m' prev (l :: ls) (us :: uss) (is :: iss) where
  adds := h.adds.trans h'.adds
  stands := by
    refine .cons (h.stands.imp fun n u i _ hu => ?_) h'.stands
    exact hu.keep h'.adds.keeps List.not_mem_nil List.not_mem_nil List.not_mem_nil

end ReluMilp
