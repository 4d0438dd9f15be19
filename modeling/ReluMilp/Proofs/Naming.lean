import ReluMilp.Proofs.Switches
import ReluMilp.Proofs.Titles

/-!
# Names in a model

All variables and rows of a network are named after the part that they are, from a build on and while rows are
exchanged.

* `Model.VarNamed`, `Model.RowNamed` — the name of what has a number;
* `Body.var?`, `Body.row?`, `Body.Named` — the parts of a body, and that everything is named after the part
  that it is;
* `Body.Named.swap`, `Renewals.named` — the names after rows were exchanged for those that are named after the
  same neuron;
* `addHidden_titled`, `buildHidden_titled` — the names of hidden layers;
* `Request.Spells.named`, `Request.build_named`, `formulateNetwork_named` — the names that a build gives.
-/

namespace ReluMilp

variable {α : Type}

/-! ### Numbers and names -/

/-- The variable with a number has a name. -/
def Model.VarNamed (m : Model α) (id : VarId) (t : String) : Prop := ∃ v ∈ m.vars, v.id = id ∧ v.name = t

/-- The row with a number has a name. -/
def Model.RowNamed (m : Model α) (id : RowId) (t : String) : Prop := ∃ r ∈ m.rows, r.id = id ∧ r.name = t

section Named

variable {m m' : Model α} {id : Nat} {t : String} {ids kept : List Nat}

theorem Model.VarNamed.spare (h : m.VarNamed id t) (hs : m.Spares m' ids kept) (hid : id ∈ ids) :
    m'.VarNamed id t := by
  obtain ⟨v, hv, rfl, ht⟩ := h
  exact ⟨v, hs.vars v hv hid, rfl, ht⟩

theorem Model.RowNamed.spare (h : m.RowNamed id t) (hs : m.Spares m' ids kept) (hid : id ∈ kept) :
    m'.RowNamed id t := by
  obtain ⟨r, hr, rfl, ht⟩ := h
  exact ⟨r, hs.rows r hr hid, rfl, ht⟩

theorem Model.VarNamed.adds (h : m.VarNamed id t) (ha : m.Adds m' ids kept) : m'.VarNamed id t :=
  h.spare (ha.spares [id] []) (List.mem_singleton_self id)

theorem Model.RowNamed.adds (h : m.RowNamed id t) (ha : m.Adds m' ids kept) : m'.RowNamed id t :=
  h.spare (ha.spares [] [id]) (List.mem_singleton_self id)

theorem nameOrNumber_partName (letter : String) (id : Nat) (name : Value) (title place : String) :
    nameOrNumber letter id (partName name title place) = partName name title place := by
  unfold nameOrNumber
  rw [isEmpty_partName]
  rfl

/-- The variables of a vector are named after the layer and their position. -/
theorem varNamed_withVars (m : Model α) (name : Value) (title : String) (k : Nat) {n i : Nat} (kind : VarKind)
    (lower upper : Limit α) (hi : i < n) :
    (m.withVars (elementNames (layerName name title k) n) kind lower upper).VarNamed (m.nextVar + i)
      (partName name title (layerPlace k i)) := by
  refine ⟨⟨m.nextVar + i, partName name title (layerPlace k i), kind, lower, upper⟩,
    List.mem_append_right _ (mem_number.2 ⟨i, _, getElem?_elementNames _ hi, ?_⟩), rfl, rfl⟩
  rw [layerName_element, nameOrNumber_partName, Nat.zero_add]

theorem varNamed_addVector {name : Value} {title : String} {k n i : Nat} {kind : VarKind}
    {lower upper : Limit α} {ids : List VarId} {w w' : Workspace α}
    (h : addVector (layerName name title k) n kind lower upper w = .ok ids w') (hi : ids[i]? = some id) :
    w'.model.VarNamed id (partName name title (layerPlace k i)) := by
  obtain ⟨hm, rfl⟩ := addVector_eq_ok h
  obtain ⟨hlt, rfl⟩ := List.getElem?_eq_some_iff.1 hi
  rw [List.length_range'] at hlt
  rw [hm, List.getElem_range', Nat.one_mul]
  exact varNamed_withVars _ name title k kind lower upper hlt

variable [Scalar α]

theorem rowNamed_of_toRow {name : Value} {title place : String} {d : RowDraft α} (hd : d.toRow id ∈ m.rows)
    (hname : d.name = partName name title place) : m.RowNamed id (partName name title place) := by
  refine ⟨_, hd, rfl, ?_⟩
  show nameOrNumber "R" id d.name = _
  rw [hname, nameOrNumber_partName]

end Named

/-! ### Parts of a body -/

/-- The row with a binary variable on one side. -/
def HiddenUnit.switchRow (u : HiddenUnit) : Side → RowId
  | .upper => u.upperRow
  | .lower => u.lowerRow

namespace Body

/-- The rows of the affine values of each layer. -/
def affineRows (b : Body) : List (List RowId) := b.hidden.map (·.map (·.affineRow)) ++ [b.outputRows]

/-- The variable of a part. -/
def var? (b : Body) : VarPart → Option VarId
  | ⟨.value, k, i⟩ => at? b.layers (k, i)
  | ⟨.slack, k + 1, i⟩ => (at? b.hidden (k, i)).map (·.s)
  | ⟨.switch, k + 1, i⟩ => (at? b.hidden (k, i)).map (·.z)
  | _ => none

/-- The row of a part. -/
def row? (b : Body) : RowPart → Option RowId
  | .bound .inputUpper i => b.inputRows[i]?
  | .bound .inputLower i => b.inputRows[b.inputs.length + i]?
  | .bound .outputLower i => b.rangeRows[i]?
  | .bound .outputUpper i => b.rangeRows[b.outputs.length + i]?
  | .affine 0 _ => none
  | .affine (k + 1) i => at? b.affineRows (k, i)
  | .switched side layer neuron => (b.place? layer neuron).bind fun p =>
      (at? b.hidden p).map (·.switchRow side)

/-- The variables and rows of a body are named after the parts that they are. -/
structure Named (b : Body) (name : Value) (m : Model α) : Prop where
  vars : ∀ id ∈ b.vars, ∃ p, b.var? p = some id ∧ m.VarNamed id (p.name name)
  rows : ∀ id ∈ b.rows, ∃ p, b.row? p = some id ∧ m.RowNamed id (p.name name)

theorem Named.spare {b : Body} {name : Value} {m m' : Model α} (h : b.Named name m)
    (hs : m.Spares m' b.vars b.rows) : b.Named name m' := by
  refine ⟨fun id hid => ?_, fun id hid => ?_⟩
  · obtain ⟨p, hp, hname⟩ := h.vars id hid
    exact ⟨p, hp, hname.spare hs hid⟩
  · obtain ⟨p, hp, hname⟩ := h.rows id hid
    exact ⟨p, hp, hname.spare hs hid⟩

/-- Only values that count positions name a row of a body. -/
theorem plain_of_row? {b : Body} {p : RowPart} {id : RowId} (h : b.row? p = some id) : p.Plain := by
  cases p with
  | bound v i => trivial
  | affine k i => trivial
  | switched side layer neuron =>
    obtain ⟨⟨k, i⟩, hplace, -⟩ := Option.bind_eq_some_iff.1 h
    obtain ⟨hlayer, j, hneuron, -⟩ := Body.place?_eq_some.1 hplace
    exact ⟨by rw [hlayer]; rfl, by rw [hneuron]; rfl⟩

end Body

/-! ### Exchanges -/

section Exchange

variable {b : Body} {k i : Nat} {us : List HiddenUnit} {u : HiddenUnit} {base : RowId}

/-- What is read off every neuron stays where the neurons at one place agree. -/
theorem map_modify_eq {β : Type} {f : HiddenUnit → β} {uss : List (List HiddenUnit)} (u' : HiddenUnit)
    (hk : uss[k]? = some us) (hi : us[i]? = some u) (hf : f u' = f u) :
    (uss.modify k fun us => us.set i u').map (·.map f) = uss.map (·.map f) := by
  have hset : (us.set i u').map f = us.map f := map_set_eq u' hi hf
  induction uss generalizing k with
  | nil => cases hk
  | cons vs uss ih =>
    cases k with
    | zero =>
      cases hk
      rw [List.modify_zero_cons, List.map_cons, List.map_cons, hset]
    | succ k => rw [List.modify_succ_cons, List.map_cons, List.map_cons, ih hk]

theorem at?_withUnit {β : Type} {f : HiddenUnit → β} (u' : HiddenUnit) (hk : b.hidden[k]? = some us)
    (hi : us[i]? = some u) (hf : f u' = f u) (p : Nat × Nat) :
    (at? (b.withUnit k i u').hidden p).map f = (at? b.hidden p).map f := by
  rw [← at?_map, ← at?_map]
  unfold Body.withUnit
  rw [map_modify_eq u' hk hi hf]

theorem place?_withUnit (u' : HiddenUnit) (layer neuron : Value) :
    (b.withUnit k i u').place? layer neuron = b.place? layer neuron := by
  have hwidth : ∀ n : Nat, (((b.withUnit k i u').hidden[n]?).getD []).length =
      ((b.hidden[n]?).getD []).length := width_congr (map_length_set b.hidden k i u')
  unfold Body.place?
  simp only [hwidth]

theorem var?_withUnit (hk : b.hidden[k]? = some us) (hi : us[i]? = some u) (p : VarPart) :
    (b.withUnit k i (u.moved base)).var? p = b.var? p := by
  obtain ⟨v, layer, item⟩ := p
  cases v with
  | value =>
    have hsame : (b.withUnit k i (u.moved base)).layers = b.layers := by
      unfold Body.layers Body.withUnit
      dsimp only
      rw [map_modify_eq (u.moved base) hk hi rfl]
    show at? (b.withUnit k i (u.moved base)).layers (layer, item) = _
    rw [hsame]
    rfl
  | slack =>
    cases layer with
    | zero => rfl
    | succ layer => exact at?_withUnit (u.moved base) hk hi rfl (layer, item)
  | switch =>
    cases layer with
    | zero => rfl
    | succ layer => exact at?_withUnit (u.moved base) hk hi rfl (layer, item)

/-- A row that is not exchanged is the same part afterwards. -/
theorem row?_withUnit (hk : b.hidden[k]? = some us) (hi : us[i]? = some u) {p : RowPart} {id : RowId}
    (h : b.row? p = some id) (hid : id ∉ [u.upperRow, u.lowerRow]) :
    (b.withUnit k i (u.moved base)).row? p = some id := by
  cases p with
  | bound v j => cases v <;> exact h
  | affine layer item =>
    cases layer with
    | zero => cases h
    | succ layer =>
      have hsame : (b.withUnit k i (u.moved base)).affineRows = b.affineRows := by
        unfold Body.affineRows Body.withUnit
        dsimp only
        rw [map_modify_eq (u.moved base) hk hi rfl]
      show at? (b.withUnit k i (u.moved base)).affineRows (layer, item) = some id
      rw [hsame]
      exact h
  | switched side layer neuron =>
    obtain ⟨q, hplace, hat⟩ := Option.bind_eq_some_iff.1 h
    obtain ⟨v, hv, rfl⟩ := Option.map_eq_some_iff.1 hat
    refine Option.bind_eq_some_iff.2 ⟨q, ?_, Option.map_eq_some_iff.2 ⟨v, ?_, rfl⟩⟩
    · rw [place?_withUnit]
      exact hplace
    · have hq : q ≠ (k, i) := by
        rintro rfl
        rw [at?_eq_some.2 ⟨us, hk, hi⟩] at hv
        cases hv
        cases side <;> simp [HiddenUnit.switchRow] at hid
      exact (at?_set_of_ne hq).trans hv

variable [Scalar α] {m : Model α} {name : Value}

/-- The rows after an exchange: the two new ones, and all old ones but the two. -/
theorem mem_rows_withUnit (hnodup : b.rows.Nodup) (hk : b.hidden[k]? = some us) (hi : us[i]? = some u)
    {id : RowId} (h : id ∈ (b.withUnit k i (u.moved base)).rows) :
    id = base ∨ id = base + 1 ∨ id ∈ b.rows ∧ id ∉ [u.upperRow, u.lowerRow] := by
  obtain ⟨rest, hb, hb'⟩ := rows_withUnit (u.moved base) hk hi
  have hold := hb.nodup hnodup
  obtain ⟨hmine, -, hdisj⟩ := List.nodup_append'.1 hold
  rcases List.mem_append.1 (hb'.mem_iff.1 h) with hid | hid
  · rcases List.mem_cons.1 hid with rfl | hid
    · exact .inr (.inr ⟨hb.mem_iff.2 (List.mem_append_left _ List.mem_cons_self),
        (List.nodup_cons.1 hmine).1⟩)
    · rcases List.mem_pair.1 hid with rfl | rfl
      · exact .inl rfl
      · exact .inr (.inl rfl)
  · exact .inr (.inr ⟨hb.mem_iff.2 (List.mem_append_right _ hid),
      fun hu => hdisj (List.mem_cons_of_mem _ hu) hid⟩)

/-- The names after an exchange whose rows are named after the neuron. -/
theorem Body.Named.swap (h : b.Named name m) (hnodup : b.rows.Nodup) (hk : b.hidden[k]? = some us)
    (hi : us[i]? = some u) {layer neuron : Value} (hplace : b.place? layer neuron = some (k, i))
    (j : Interval α) :
    (b.withUnit k i (u.moved m.nextRow)).Named name
      (m.swap u (unitRowName name "relu_ub" layer neuron) (unitRowName name "relu_lb" layer neuron) j) := by
  have hat : at? b.hidden (k, i) = some u := at?_eq_some.2 ⟨us, hk, hi⟩
  have hnew : ∀ side, (b.withUnit k i (u.moved m.nextRow)).row? (.switched side layer neuron) =
      some ((u.moved m.nextRow).switchRow side) := by
    intro side
    refine Option.bind_eq_some_iff.2 ⟨(k, i), ?_, Option.map_eq_some_iff.2 ⟨_, at?_set_self hat, rfl⟩⟩
    rw [place?_withUnit]
    exact hplace
  have hdrafts : ∀ (n : Nat) d, (u.drafts (unitRowName name "relu_ub" layer neuron)
      (unitRowName name "relu_lb" layer neuron) j)[n]? = some d →
      d.toRow (m.nextRow + n) ∈ (m.swap u (unitRowName name "relu_ub" layer neuron)
        (unitRowName name "relu_lb" layer neuron) j).rows :=
    fun n d hd => mem_withRows (m.removeRows [u.upperRow, u.lowerRow]) hd
  refine ⟨fun id hid => ?_, fun id hid => ?_⟩
  · rw [vars_withUnit _ hk hi] at hid
    obtain ⟨p, hp, hname⟩ := h.vars id hid
    exact ⟨p, (var?_withUnit hk hi p).trans hp, hname⟩
  · rcases mem_rows_withUnit hnodup hk hi hid with rfl | rfl | ⟨hid, hother⟩
    · exact ⟨_, hnew .upper, rowNamed_of_toRow (hdrafts 0 _ rfl) (unitRowName_eq _ _ _ _)⟩
    · exact ⟨_, hnew .lower, rowNamed_of_toRow (hdrafts 1 _ rfl) (unitRowName_eq _ _ _ _)⟩
    · obtain ⟨p, hp, r, hr, rfl, hname⟩ := h.rows id hid
      exact ⟨p, row?_withUnit hk hi hp hother, r, (keeps_swap m u _ _ j).rows r hr hother, rfl, hname⟩

/-- Any number of such exchanges. -/
theorem Renewals.named {base m₁ : Model α} {b' : Body} {n : Network α} {mode : Mode}
    {table : List (List (Interval α))} (h : Renewals name b m b' m₁) (hbase : base.WellFormed)
    (hm : m.WellFormed) (hb : b.Placed m n mode table) (ha : base.Adds m b.vars b.rows)
    (hn : b.Named name m) : b'.Named name m₁ := by
  induction h with
  | refl => exact hn
  | step j hfront hk hi hplace ih =>
    obtain ⟨-, -, hadds⟩ := hfront.exchanges.placed hbase hm hb ha
    exact ih.swap hadds.rows_nodup hk hi hplace j

end Exchange

/-! ### Builds -/

variable [Scalar α]

/-- The variables and rows of a hidden neuron are named after its layer, counted from one, and its
number. -/
structure HiddenUnit.Titled (u : HiddenUnit) (m : Model α) (name : Value) (k i : Nat) : Prop where
  value : m.VarNamed u.x (VarPart.name name ⟨.value, k, i⟩)
  slack : m.VarNamed u.s (VarPart.name name ⟨.slack, k, i⟩)
  switch : m.VarNamed u.z (VarPart.name name ⟨.switch, k, i⟩)
  upper : m.RowNamed u.upperRow (RowPart.name name (.switched .upper (indexValue k) (indexValue i)))
  lower : m.RowNamed u.lowerRow (RowPart.name name (.switched .lower (indexValue k) (indexValue i)))
  affine : m.RowNamed u.affineRow (RowPart.name name (.affine k i))

section Hidden

variable {m m' : Model α} {u : HiddenUnit} {us : List HiddenUnit} {name : Value} {k i : Nat}
  {prev : List VarId} {l : Layer α} {is : List (Interval α)} {w w' : Workspace α}

omit [Scalar α] in
theorem HiddenUnit.Titled.adds {vars : List VarId} {rows : List RowId} (h : u.Titled m name k i)
    (ha : m.Adds m' vars rows) : u.Titled m' name k i :=
  ⟨h.value.adds ha, h.slack.adds ha, h.switch.adds ha, h.upper.adds ha, h.lower.adds ha, h.affine.adds ha⟩

theorem addHidden_titled (his : is.length = l.outputs) (h : addHidden name k prev l is w = .ok us w')
    (hu : us[i]? = some u) : u.Titled w'.model name k i := by
  obtain ⟨xs, ss, zs, w₁, w₂, w₃, hax, has, haz, hm, rfl⟩ := addHidden_eq_ok h
  have hxl : xs.length = l.outputs := by rw [(addVector_eq_ok hax).2, List.length_range']
  have hsl : ss.length = l.outputs := by rw [(addVector_eq_ok has).2, List.length_range']
  have hzl : zs.length = l.outputs := by rw [(addVector_eq_ok haz).2, List.length_range']
  obtain ⟨hx, hs, hz, hup, hlo, haf⟩ := getElem?_unitsFrom hu
  have hi : i < l.outputs := by
    rw [← hxl]
    exact (List.getElem?_eq_some_iff.1 hx).1
  have hb := List.getElem?_eq_getElem (l := is) (i := i) (by omega)
  have hn : l.neurons[i]? = some _ := List.getElem?_eq_getElem hi
  obtain ⟨hupper, hlower, haffine⟩ := mem_unitDrafts w₃.model name k prev hxl hsl hzl his hx hs hz hb hn
  rw [← hm] at hupper hlower haffine
  rw [← hup] at hupper
  rw [← hlo] at hlower
  rw [← haf] at haffine
  have hkept : ∀ {id t}, w₃.model.VarNamed id t → w'.model.VarNamed id t := by
    intro id t ht
    rw [hm]
    exact ht
  have hs₁ := addVector_adds has
  have hz₁ := addVector_adds haz
  refine ⟨hkept (((varNamed_addVector hax hx).adds hs₁).adds hz₁),
    hkept ((varNamed_addVector has hs).adds hz₁), hkept (varNamed_addVector haz hz),
    rowNamed_of_toRow hupper (unitRowName_eq _ _ _ _), rowNamed_of_toRow hlower (unitRowName_eq _ _ _ _),
    rowNamed_of_toRow haffine (layerName_element _ _ _ _)⟩

/-- The neurons of hidden layers that are built. -/
theorem buildHidden_titled {solver : Solver α} {r : Request α} {rectified : Bool}
    {before : List (Interval α)} {ls : List (Layer α)} {stem : Stem α}
    (hprev : ∀ id ∈ prev, id < w.model.nextVar) (hr : r.Fits k ls)
    (h : buildHidden solver r (k + 1) prev rectified before ls w = .ok stem w') {p : Nat × Nat}
    (hu : at? stem.units p = some u) : u.Titled w'.model r.name (k + p.1 + 1) p.2 := by
  induction ls generalizing k prev rectified before stem w p with
  | nil =>
    obtain ⟨rfl, rfl⟩ := Action.pure_eq_ok.1 h
    cases hu
  | cons l ls ih =>
    obtain ⟨is, us, rest, w₁, w₂, his, hus, hrest, rfl⟩ := buildHidden_cons h
    have hlen := length_layerBounds hr his
    have hlayer := addHidden_added (by rw [(layerBounds_eq_ok his).1]; exact hprev) hlen hus
    have hnext : ∀ id ∈ us.map (·.x), id < w₂.model.nextVar :=
      fun id hid => (hlayer.adds.vars_new (mem_xs_unitVars hid)).2
    obtain ⟨j, i⟩ := p
    cases j with
    | zero =>
      have hmine := addHidden_titled hlen hus hu
      exact hmine.adds (buildHidden_added hnext hr.tail hrest).1.adds
    | succ j =>
      have hlater := ih hnext hr.tail hrest (p := (j, i)) hu
      rwa [Nat.add_right_comm k 1] at hlater

end Hidden

section Bounds

variable {m : Model α} {t t' : String} {name : Value} {sense sense' : Sense} {xs : List VarId}
  {bs bs' : List α} {d : RowDraft α} {i : Nat}

theorem name_boundDraft (h : (boundDrafts t sense xs bs)[i]? = some d) :
    d.name = t ++ "[" ++ toString i ++ "]" := by
  unfold boundDrafts at h
  obtain ⟨e, p, he, -, rfl⟩ := List.getElem?_zipWith_eq_some.1 h
  have hi : i < xs.length := by
    rw [← length_elementNames t xs.length]
    exact (List.getElem?_eq_some_iff.1 he).1
  rw [getElem?_elementNames t hi] at he
  exact (Option.some.inj he).symm

/-- Of two vectors of rows that bound the same variables, an element belongs to the first or to the
second. -/
theorem name_boundPair (hlen : xs.length = bs.length)
    (h : (boundDrafts t sense xs bs ++ boundDrafts t' sense' xs bs')[i]? = some d) :
    i < xs.length ∧ d.name = t ++ "[" ++ toString i ++ "]" ∨
      ∃ j, i = xs.length + j ∧ d.name = t' ++ "[" ++ toString j ++ "]" := by
  have hl := length_boundDrafts t sense hlen
  rcases Nat.lt_or_ge i xs.length with hi | hi
  · rw [List.getElem?_append_left (by omega)] at h
    exact .inl ⟨hi, name_boundDraft h⟩
  · rw [List.getElem?_append_right (by omega), hl] at h
    exact .inr ⟨i - xs.length, by omega, name_boundDraft h⟩

end Bounds

section Lookup

omit [Scalar α]

variable {b : Body} {u : HiddenUnit} {k i id : Nat}

theorem at?_append_of_some {β : Type} {bss css : List (List β)} {c : β} {p : Nat × Nat}
    (h : at? bss p = some c) : at? (bss ++ css) p = some c := by
  obtain ⟨bs, hk, hi⟩ := at?_eq_some.1 h
  refine at?_eq_some.2 ⟨bs, ?_, hi⟩
  rw [List.getElem?_append_left (List.getElem?_eq_some_iff.1 hk).1, hk]

theorem at?_concat {β : Type} (bss : List (List β)) (bs : List β) (i : Nat) :
    at? (bss ++ [bs]) (bss.length, i) = bs[i]? := by
  unfold at?
  rw [List.getElem?_concat_length]
  rfl

theorem Body.var?_hidden (h : at? b.hidden (k, i) = some u) : b.var? ⟨.value, k + 1, i⟩ = some u.x := by
  have hx : at? (b.hidden.map (·.map (·.x))) (k, i) = some u.x := by
    rw [at?_map, h]
    rfl
  exact at?_append_of_some hx

theorem Body.var?_output (h : b.outputs[i]? = some id) : b.var? ⟨.value, b.hidden.length + 1, i⟩ = some id := by
  have hlast := at?_concat (b.hidden.map (·.map (·.x))) b.outputs i
  rw [List.length_map, h] at hlast
  exact hlast

theorem Body.row?_hidden (h : at? b.hidden (k, i) = some u) :
    b.row? (.affine (k + 1) i) = some u.affineRow := by
  refine at?_append_of_some ?_
  rw [at?_map, h]
  rfl

theorem Body.row?_output (h : b.outputRows[i]? = some id) :
    b.row? (.affine (b.hidden.length + 1) i) = some id := by
  have hlast := at?_concat (b.hidden.map (·.map (·.affineRow))) b.outputRows i
  rw [List.length_map, h] at hlast
  exact hlast

theorem Body.row?_switched (h : at? b.hidden (k, i) = some u) (side : Side) :
    b.row? (.switched side (indexValue (k + 1)) (indexValue i)) = some (u.switchRow side) := by
  obtain ⟨us, hk, hi⟩ := at?_eq_some.1 h
  have hk : b.hidden[k]? = some us := hk
  refine Option.bind_eq_some_iff.2 ⟨(k, i), Body.place?_eq_some.2 ⟨rfl, i, rfl, ?_⟩,
    Option.map_eq_some_iff.2 ⟨u, h, rfl⟩⟩
  rw [hk]
  exact position?_natCast (List.getElem?_eq_some_iff.1 hi).1

/-- What belongs to a hidden layer belongs to a neuron at a place. -/
theorem exists_of_mem_units {f : List HiddenUnit → List Nat} {g : HiddenUnit → List Nat}
    {uss : List (List HiddenUnit)} (hf : ∀ us, id ∈ f us ↔ ∃ u ∈ us, id ∈ g u) (h : id ∈ uss.flatMap f) :
    ∃ k i u, at? uss (k, i) = some u ∧ id ∈ g u := by
  obtain ⟨us, hus, hid⟩ := List.mem_flatMap.1 h
  obtain ⟨u, hu, hid⟩ := (hf us).1 hid
  obtain ⟨k, hk⟩ := List.mem_iff_getElem?.1 hus
  obtain ⟨i, hi⟩ := List.mem_iff_getElem?.1 hu
  exact ⟨k, i, u, at?_eq_some.2 ⟨us, hk, hi⟩, hid⟩

end Lookup

section Assembly

variable {solver : Solver α} {r : Request α} {s : Assembled α} {stem : Stem α} {w w₁ w₂ w' : Workspace α}

/-- Hidden layers are named after their number, counted from one. -/
theorem Request.Spells.titled (h : r.Spells solver s stem w w₁ w₂ w') (hr : r.WellFormed) {k i : Nat}
    {u : HiddenUnit} (hu : at? s.body.hidden (k, i) = some u) : u.Titled w'.model r.name (k + 1) i := by
  rw [h.units] at hu
  have htitled := buildHidden_titled (fun id hid => (h.adds_inputs.vars_new hid).2) hr.fits_hidden h.hidden hu
  rw [Nat.zero_add] at htitled
  exact htitled.adds (h.adds_outputs hr)

theorem Request.Assembles.length_hidden (h : r.Assembles solver s stem w w₁ w₂ w') (hr : r.WellFormed) :
    s.body.hidden.length = r.network.hidden.length := by
  have hlen := congrArg List.length (h.stands hr).hidden.length_eq.1
  rwa [List.length_map, List.length_map] at hlen

theorem Request.Spells.named_vars (h : r.Spells solver s stem w w₁ w₂ w') (hr : r.WellFormed) {id : VarId}
    (hid : id ∈ s.body.vars) : ∃ p, s.body.var? p = some id ∧ w'.model.VarNamed id (p.name r.name) := by
  unfold Body.vars at hid
  rw [List.mem_append, List.mem_append] at hid
  rcases hid with (hid | hid) | hid
  · obtain ⟨i, hi⟩ := List.mem_iff_getElem?.1 hid
    refine ⟨⟨.value, 0, i⟩, hi, ?_⟩
    rw [h.inputs] at hi
    obtain ⟨hlt, rfl⟩ := List.getElem?_eq_some_iff.1 hi
    rw [List.length_range'] at hlt
    have hname : w₁.model.VarNamed (w.model.nextVar + i) (VarPart.name r.name ⟨.value, 0, i⟩) := by
      rw [h.boxed_eq]
      exact varNamed_withVars w.model r.name "x" 0 .continuous .negInf .posInf hlt
    rw [List.getElem_range', Nat.one_mul]
    exact (hname.adds (h.hidden_added hr).1.adds).adds (h.adds_outputs hr)
  · obtain ⟨k, i, u, hu, hid⟩ := exists_of_mem_units (fun _ => mem_unitVars_iff) hid
    have htitled := h.titled hr hu
    rcases List.mem_cons.1 hid with rfl | hid
    · exact ⟨⟨.value, k + 1, i⟩, Body.var?_hidden hu, htitled.value⟩
    · rcases List.mem_pair.1 hid with rfl | rfl
      · exact ⟨⟨.slack, k + 1, i⟩, Option.map_eq_some_iff.2 ⟨u, hu, rfl⟩, htitled.slack⟩
      · exact ⟨⟨.switch, k + 1, i⟩, Option.map_eq_some_iff.2 ⟨u, hu, rfl⟩, htitled.switch⟩
  · obtain ⟨i, hi⟩ := List.mem_iff_getElem?.1 hid
    refine ⟨⟨.value, s.body.hidden.length + 1, i⟩, Body.var?_output hi, ?_⟩
    rw [h.outputs] at hi
    obtain ⟨hlt, rfl⟩ := List.getElem?_eq_some_iff.1 hi
    rw [List.length_range'] at hlt
    rw [List.getElem_range', Nat.one_mul, h.length_hidden hr, h.finished_eq]
    exact varNamed_withVars w₂.model r.name "x" (r.network.hidden.length + 1) .continuous .negInf .posInf hlt

/-- The rows that bound the inputs. -/
theorem Request.Spells.named_box (h : r.Spells solver s stem w w₁ w₂ w') (hr : r.WellFormed) {id : RowId}
    (hid : id ∈ s.body.inputRows) :
    ∃ p, s.body.row? p = some id ∧ w'.model.RowNamed id (p.name r.name) := by
  obtain ⟨i, hi⟩ := List.mem_iff_getElem?.1 hid
  have hrow := hi
  rw [h.input_rows] at hrow
  obtain ⟨hlt, rfl⟩ := List.getElem?_eq_some_iff.1 hrow
  rw [List.length_range'] at hlt
  rw [List.getElem_range', Nat.one_mul] at hi ⊢
  have hdraft := List.getElem?_eq_getElem hlt
  have hmem := mem_withRows (w.model.withVars (elementNames (layerName r.name "x" 0) r.network.inputs)
    .continuous .negInf .posInf) hdraft
  rw [← h.boxed_eq] at hmem
  have hkept : ∀ {t}, w₁.model.RowNamed (w.model.nextRow + i) t →
      w'.model.RowNamed (w.model.nextRow + i) t :=
    fun ht => (ht.adds (h.hidden_added hr).1.adds).adds (h.adds_outputs hr)
  have hlen : s.body.inputs.length = (r.box.map (·.upper)).length := by
    rw [h.inputs, List.length_range', List.length_map, hr.box_length]
  rcases name_boundPair hlen hdraft with ⟨-, hname⟩ | ⟨j, rfl, hname⟩
  · rw [qualify_element] at hname
    exact ⟨.bound .inputUpper i, hi, hkept (rowNamed_of_toRow hmem hname)⟩
  · rw [qualify_element] at hname
    exact ⟨.bound .inputLower j, hi, hkept (rowNamed_of_toRow hmem hname)⟩

/-- A row that is added behind the hidden layers. -/
theorem Request.Spells.mem_finished (h : r.Spells solver s stem w w₁ w₂ w') {i : Nat} {d : RowDraft α}
    (hd : (outputDrafts (layerName r.name "mix" (r.network.hidden.length + 1)) s.body.outputs
      r.network.output stem.last ++ r.rangeDrafts s.body.outputs)[i]? = some d) :
    d.toRow (w₂.model.nextRow + i) ∈ w'.model.rows := by
  rw [h.finished_eq]
  exact mem_withRows (w₂.model.withVars _ _ _ _) hd

theorem Request.Assembles.length_outputs (h : r.Assembles solver s stem w w₁ w₂ w') :
    s.body.outputs.length = r.network.outputs := by
  rw [h.outputs, List.length_range']

/-- The rows of the output layer. -/
theorem Request.Spells.named_outputs (h : r.Spells solver s stem w w₁ w₂ w') (hr : r.WellFormed) {id : RowId}
    (hid : id ∈ s.body.outputRows) :
    ∃ p, s.body.row? p = some id ∧ w'.model.RowNamed id (p.name r.name) := by
  obtain ⟨i, hi⟩ := List.mem_iff_getElem?.1 hid
  refine ⟨.affine (s.body.hidden.length + 1) i, Body.row?_output hi, ?_⟩
  rw [h.output_rows] at hi
  obtain ⟨hlt, rfl⟩ := List.getElem?_eq_some_iff.1 hi
  rw [List.length_range'] at hlt
  have hx : s.body.outputs[i]? = some (w₂.model.nextVar + i) := by
    rw [h.outputs, List.getElem?_range' hlt, Nat.one_mul]
  have hn : r.network.output.neurons[i]? = some _ := List.getElem?_eq_getElem hlt
  have hdraft := getElem?_outputDrafts (layerName r.name "mix" (r.network.hidden.length + 1)) stem.last hx hn
  rw [List.getElem_range', Nat.one_mul, h.length_hidden hr]
  have hfront : i < (outputDrafts (layerName r.name "mix" (r.network.hidden.length + 1)) s.body.outputs
      r.network.output stem.last).length := by
    rw [length_outputDrafts h.length_outputs]
    exact hlt
  have hmem := h.mem_finished ((List.getElem?_append_left hfront).trans hdraft)
  exact rowNamed_of_toRow hmem (layerName_element r.name "mix" _ i)

/-- The rows that bound the outputs. -/
theorem Request.Spells.named_range (h : r.Spells solver s stem w w₁ w₂ w') (hr : r.WellFormed) {id : RowId}
    (hid : id ∈ s.body.rangeRows) :
    ∃ p, s.body.row? p = some id ∧ w'.model.RowNamed id (p.name r.name) := by
  obtain ⟨i, hi⟩ := List.mem_iff_getElem?.1 hid
  have hrow := hi
  rw [h.range_rows] at hrow
  obtain ⟨hlt, rfl⟩ := List.getElem?_eq_some_iff.1 hrow
  rw [List.length_range'] at hlt
  rw [List.getElem_range', Nat.one_mul, Nat.add_assoc] at hi ⊢
  have hdraft := List.getElem?_eq_getElem hlt
  have hmem := h.mem_finished (i := r.network.outputs + i) (d := (r.rangeDrafts s.body.outputs)[i]) (by
    have hl : (outputDrafts (layerName r.name "mix" (r.network.hidden.length + 1)) s.body.outputs
        r.network.output stem.last).length = r.network.outputs := length_outputDrafts h.length_outputs
    rw [List.getElem?_append_right (by omega), hl, Nat.add_sub_cancel_left]
    exact hdraft)
  generalize (r.rangeDrafts s.body.outputs)[i] = d at hdraft hmem
  unfold Request.rangeDrafts rangeBlocks at hdraft
  cases hp : r.plan with
  | fast =>
    rw [hp] at hdraft
    cases hdraft
  | standard =>
    rw [hp] at hdraft
    cases hdraft
  | output range =>
    have hlen : s.body.outputs.length = (range.map (·.lower)).length := by
      rw [h.length_outputs, List.length_map, hr.range_length range hp]
    rw [hp] at hdraft
    dsimp only at hdraft
    rw [List.flatMap_cons, List.flatMap_singleton] at hdraft
    rcases name_boundPair hlen hdraft with ⟨-, hname⟩ | ⟨j, rfl, hname⟩
    · rw [qualify_element] at hname
      exact ⟨.bound .outputLower i, hi, rowNamed_of_toRow hmem hname⟩
    · rw [qualify_element] at hname
      exact ⟨.bound .outputUpper j, hi, rowNamed_of_toRow hmem hname⟩

/-- Everything that is assembled is named after what it is. -/
theorem Request.Spells.named (h : r.Spells solver s stem w w₁ w₂ w') (hr : r.WellFormed) :
    s.body.Named r.name w'.model := by
  refine ⟨fun id hid => h.named_vars hr hid, fun id hid => ?_⟩
  rcases Body.mem_rows.1 hid with hid | hid | hid | hid
  · exact h.named_box hr hid
  · obtain ⟨k, i, u, hu, hid⟩ := exists_of_mem_units (fun _ => mem_unitRows_iff) hid
    have htitled := h.titled hr hu
    rcases List.mem_cons.1 hid with rfl | hid
    · exact ⟨.affine (k + 1) i, Body.row?_hidden hu, htitled.affine⟩
    · rcases List.mem_pair.1 hid with rfl | rfl
      · exact ⟨_, Body.row?_switched hu .upper, htitled.upper⟩
      · exact ⟨_, Body.row?_switched hu .lower, htitled.lower⟩
  · exact h.named_outputs hr hid
  · exact h.named_range hr hid

/-- A network that is built is named after what it is, also where its rows were exchanged. -/
theorem Request.build_named {f : Formulation α} (hr : r.WellFormed) (hm : w.model.WellFormed)
    (h : r.build solver w = .ok f w') : ∃ b, f.body? = some b ∧ b.Named f.name w'.model := by
  rw [r.build_eq] at h
  obtain ⟨s, v, hs, h⟩ := Action.bind_eq_ok.1 h
  obtain ⟨stem, v₁, v₂, hspells⟩ := assemble_spells hs
  have hadds := hspells.adds hr
  obtain ⟨-, -, hname, b, hb, hrenewals⟩ := finish_renewals h
  rw [hname]
  exact ⟨b, hb, hrenewals.named hm (hadds.wellFormed hm) (hspells.placed hr) hadds (hspells.named hr)⟩

end Assembly

/-- A network that is formulated is named after what it is. -/
theorem formulateNetwork_named {solver : Solver α} {settings : Option Settings} {a : BuildArguments α}
    {f : Formulation α} {w w' : Workspace α} (hm : w.model.WellFormed) (ha : a.Faithful)
    (h : formulateNetwork solver settings a w = .ok f w') :
    ∃ b, f.body? = some b ∧ b.Named f.name w'.model := by
  obtain ⟨r, w₀, -, hr, hm₀, -, h⟩ := formulateNetwork_build hm ha h
  exact Request.build_named hr hm₀ h

end ReluMilp
