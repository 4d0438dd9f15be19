import ReluMilp.Proofs.Succeeding

/-!
# Runs on models that differ in some rows

Two runs that make the same rows, but for some that are later exchanged, on models that agree apart from
those.

* `Model.AgreesOff` — models that agree but for their names, their parameters and rows with some numbers;
* `Action.Mirrors`, `Action.mirrors_bind` — actions that give the same result on such models;
* `addVector_mirrors`, `commit_mirrors`, `replaceUnit_mirrors`, `replaceUnits_mirrors` — single steps: an
  exchange makes rows agree that did not;
* `addHidden_mirrors`, `buildHidden_mirrors` — hidden layers for other intervals differ in their rows with a
  binary variable only;
* `assemble_mirrors` — whole assemblies, the second one with a table that is given.
-/

namespace ReluMilp

/-! ### Models that agree off some rows -/

/-- Models that agree but for their names, their parameters and the rows with some numbers. -/
structure Model.AgreesOff (ids : List RowId) (m m' : Model Rat) : Prop where
  vars : m'.vars = m.vars
  objective : m'.objective = m.objective
  nextVar : m'.nextVar = m.nextVar
  nextRow : m'.nextRow = m.nextRow
  rows : (m'.removeRows ids).rows = (m.removeRows ids).rows

theorem number_append {β γ : Type} (f : Nat → β → γ) (k : Nat) (bs cs : List β) :
    number f k (bs ++ cs) = number f k bs ++ number f (k + bs.length) cs := by
  induction bs generalizing k with
  | nil => rfl
  | cons b bs ih =>
    rw [List.cons_append, number, ih, number, List.cons_append, List.length_cons, Nat.add_assoc, Nat.add_comm 1]

section Agreement

variable {S T : List RowId} {m m' : Model Rat}

theorem rows_removeRows (m : Model Rat) (ids : List RowId) :
    (m.removeRows ids).rows = m.rows.filter fun r => !ids.contains r.id := rfl

theorem rows_removeRows_append (m : Model Rat) (S T : List RowId) :
    (m.removeRows (S ++ T)).rows = ((m.removeRows S).rows).filter fun r => !T.contains r.id := by
  rw [rows_removeRows, rows_removeRows, List.filter_filter]
  refine List.filter_congr fun r _ => ?_
  rw [List.contains_append, Bool.not_or, Bool.and_comm]

/-- Rows with new numbers that are removed at once leave the others. -/
theorem rows_withRows (m : Model Rat) (ds : List (RowDraft Rat)) (ids : List RowId) :
    ((m.withRows ds).removeRows ids).rows = (m.removeRows ids).rows ++
      (number (fun k d => RowDraft.toRow (m.nextRow + k) d) 0 ds).filter fun r => !ids.contains r.id :=
  List.filter_append _ _

namespace Model.AgreesOff

theorem mono (h : m.AgreesOff S m') (hsub : S ⊆ T) : m.AgreesOff T m' := by
  refine ⟨h.vars, h.objective, h.nextVar, h.nextRow, ?_⟩
  have hfilter : ∀ n : Model Rat, (n.removeRows T).rows =
      ((n.removeRows S).rows).filter fun r => !T.contains r.id := by
    intro n
    rw [rows_removeRows, rows_removeRows, List.filter_filter]
    refine List.filter_congr fun r _ => ?_
    by_cases hr : r.id ∈ S
    · simp [hr, hsub hr]
    · simp [hr]
  rw [hfilter, hfilter, h.rows]

theorem rows_eq (h : m.AgreesOff [] m') : m'.rows = m.rows := by
  have hnil : ∀ n : Model Rat, (n.removeRows []).rows = n.rows := fun n => List.filter_true _
  rw [← hnil m', ← hnil m, h.rows]

theorem withVars (h : m.AgreesOff S m') (names : List String) (kind : VarKind) (lower upper : Limit Rat) :
    (m.withVars names kind lower upper).AgreesOff S (m'.withVars names kind lower upper) := by
  refine ⟨?_, h.objective, ?_, h.nextRow, h.rows⟩
  · unfold Model.withVars
    rw [h.vars, h.nextVar]
  · unfold Model.withVars
    rw [h.nextVar]

theorem withRows (h : m.AgreesOff S m') (ds : List (RowDraft Rat)) :
    (m.withRows ds).AgreesOff S (m'.withRows ds) := by
  refine ⟨h.vars, h.objective, h.nextVar, ?_, ?_⟩
  · unfold Model.withRows
    rw [h.nextRow]
  · rw [rows_withRows, rows_withRows, h.rows, h.nextRow]

/-- Rows that differ may be added if their numbers are among those that do not matter. -/
theorem withRows_off {ds ds' : List (RowDraft Rat)} (h : m.AgreesOff S m') (hlen : ds'.length = ds.length)
    (hnew : List.range' m.nextRow ds.length ⊆ S) : (m.withRows ds).AgreesOff S (m'.withRows ds') := by
  have hgone : ∀ es : List (RowDraft Rat), es.length = ds.length →
      ((number (fun k d => RowDraft.toRow (m.nextRow + k) d) 0 es).filter fun r => !S.contains r.id) = [] := by
    intro es hes
    refine filter_gone fun r hr => hnew ?_
    obtain ⟨k, d, hk, rfl⟩ := mem_number.1 hr
    have hlt := (List.getElem?_eq_some_iff.1 hk).1
    rw [Nat.zero_add]
    exact List.mem_range'_1.2 ⟨Nat.le_add_right _ _, Nat.add_lt_add_left (hes ▸ hlt) _⟩
  refine ⟨h.vars, h.objective, h.nextVar, ?_, ?_⟩
  · unfold Model.withRows
    rw [h.nextRow, hlen]
  · rw [rows_withRows, rows_withRows, h.rows, h.nextRow, hgone ds rfl, hgone ds' hlen]

/-- Rows that are removed from both models do not matter any longer. -/
theorem removeRows (h : m.AgreesOff (S ++ T) m') : (m.removeRows S).AgreesOff T (m'.removeRows S) := by
  refine ⟨h.vars, h.objective, h.nextVar, h.nextRow, ?_⟩
  have hrows := h.rows
  rw [rows_removeRows_append, rows_removeRows_append] at hrows
  exact hrows

end Model.AgreesOff

theorem withRows_append (m : Model Rat) (ds es : List (RowDraft Rat)) :
    m.withRows (ds ++ es) = (m.withRows ds).withRows es := by
  have hnumber : number (fun k d => RowDraft.toRow (m.nextRow + k) d) (0 + ds.length) es =
      number (fun k d => RowDraft.toRow (m.nextRow + ds.length + k) d) 0 es := by
    rw [number_eq_mapIdx, number_eq_mapIdx]
    refine List.mapIdx_eq_mapIdx_iff.2 fun i _ => ?_
    rw [Nat.zero_add, Nat.zero_add, Nat.add_assoc]
  unfold Model.withRows
  dsimp only
  rw [number_append, hnumber, List.length_append, List.append_assoc, Nat.add_assoc]

end Agreement

/-! ### Actions that mirror each other -/

namespace Action

variable {β γ : Type} {S T U : List RowId}

/-- Whatever the first action gives, the second gives on a model that agrees off some rows, and then the
models agree off others. -/
def Mirrors (S T : List RowId) (act act' : Action Rat β) : Prop :=
  ∀ w v b w', w.model.AgreesOff S v.model → act w = .ok b w' →
    ∃ v', act' v = .ok b v' ∧ w'.model.AgreesOff T v'.model

theorem mirrors_pure (S : List RowId) (b : β) : Mirrors S S (pure b) (pure b) := by
  intro w v c w' hagree h
  obtain ⟨rfl, rfl⟩ := pure_eq_ok.1 h
  exact ⟨v, rfl, hagree⟩

theorem mirrors_bind {act act' : Action Rat β} {next next' : β → Action Rat γ} (h : Mirrors S T act act')
    (hnext : ∀ b, Mirrors T U (next b) (next' b)) : Mirrors S U (act >>= next) (act' >>= next') := by
  intro w v c w' hagree hrun
  obtain ⟨b, w₁, hact, hrest⟩ := bind_eq_ok.1 hrun
  obtain ⟨v₁, hact', hagree₁⟩ := h w v b w₁ hagree hact
  obtain ⟨v', hrest', hagree'⟩ := hnext b w₁ v₁ c w' hagree₁ hrest
  exact ⟨v', bind_eq_ok.2 ⟨b, v₁, hact', hrest'⟩, hagree'⟩

end Action

section Steps

open ReluMilp.Action

variable {S T : List RowId}

theorem addVector_mirrors (S : List RowId) (name : String) (n : Nat) (kind : VarKind) (lower upper : Limit Rat) :
    Mirrors S S (addVector name n kind lower upper) (addVector name n kind lower upper) := by
  intro w v ids w' hagree h
  obtain ⟨m, hm, rfl⟩ := Action.update_eq_ok.1 h
  have hfit : (elementNames name n).all RowDraft.nameFits = true := by
    unfold Model.addVars at hm
    split at hm
    · assumption
    · cases hm
  obtain ⟨rfl, rfl⟩ := addVars_eq_ok hm
  refine ⟨_, Action.update_eq_ok.2 ⟨v.model.withVars (elementNames name n) kind lower upper, ?_, rfl⟩,
    hagree.withVars _ _ _ _⟩
  rw [← hagree.nextVar]
  exact if_pos hfit

theorem nextRow_mirrors (S : List RowId) : Mirrors S S (nextRow : Action Rat RowId) nextRow := by
  intro w v base w' hagree h
  obtain ⟨rfl, rfl⟩ := nextRow_eq_ok h
  refine ⟨v, ?_, hagree⟩
  rw [← hagree.nextRow]
  rfl

theorem dropRows_mirrors (S T : List RowId) :
    Mirrors (S ++ T) T (Action.dropRows S : Action Rat Unit) (Action.dropRows S) := by
  intro w v u w' hagree h
  have hw' := Action.dropRows_eq_ok.1 h
  refine ⟨_, Action.dropRows_eq_ok.2 rfl, ?_⟩
  rw [hw']
  exact hagree.removeRows

/-- In exact arithmetic rows are taken for their names alone. -/
theorem accepts_rat (blocks : List (RowBlock Rat)) :
    accepts blocks = ((blocks.flatMap (·.rows)).map (·.name)).all RowDraft.nameFits := by
  have hchecked : (blocks.all fun b => !b.checked || b.rows.all fun r => finiteTerms r.terms) = true := by
    refine List.all_eq_true.2 fun b _ => ?_
    rw [List.all_eq_true.2 fun d _ => finiteTerms_rat d.terms, Bool.or_true]
  unfold accepts
  rw [hchecked, Bool.true_and, List.all_map]
  refine congrArg (List.all _) (funext fun d => ?_)
  show (RowDraft.nameFits d.name && finiteTerms d.terms && true) = _
  rw [finiteTerms_rat, Bool.and_true, Bool.and_true]
  rfl

/-- Rows with the same names are taken alike. -/
theorem commit_of_names {blocks : List (RowBlock Rat)} {ids : List RowId} {w w' : Workspace Rat}
    (blocks' : List (RowBlock Rat)) (v : Workspace Rat) (h : commit blocks w = .ok ids w')
    (hrow : v.model.nextRow = w.model.nextRow)
    (hnames : (blocks'.flatMap (·.rows)).map (·.name) = (blocks.flatMap (·.rows)).map (·.name)) :
    ∃ v', commit blocks' v = .ok ids v' ∧ v'.model = v.model.withRows (blocks'.flatMap (·.rows)) := by
  have hsucceeds : (commit blocks').succeeds v = true := by
    rw [succeeds_commit, accepts_rat, hnames, ← accepts_rat, ← succeeds_commit blocks w]
    unfold Action.succeeds
    rw [h]
  obtain ⟨ids', v', h'⟩ := exists_of_succeeds hsucceeds
  obtain ⟨hm', hids'⟩ := commit_eq_ok h'
  have hlen := congrArg List.length hnames
  rw [List.length_map, List.length_map] at hlen
  rw [hrow, hlen, ← (commit_eq_ok h).2] at hids'
  exact ⟨v', hids' ▸ h', hm'⟩

theorem commit_mirrors (S : List RowId) (blocks : List (RowBlock Rat)) :
    Mirrors S S (commit blocks) (commit blocks) := by
  intro w v ids w' hagree h
  obtain ⟨v', h', hm'⟩ := commit_of_names blocks v h hagree.nextRow rfl
  refine ⟨v', h', ?_⟩
  rw [(commit_eq_ok h).1, hm']
  exact hagree.withRows _

/-! ### Exchanges -/

/-- An exchange makes the rows of a neuron agree. -/
theorem replaceUnit_mirrors (S : List RowId) (name layer neuron : Value) (u : HiddenUnit) (j : Interval Rat) :
    Mirrors (u.upperRow :: u.lowerRow :: S) S (replaceUnit name layer neuron u j)
      (replaceUnit name layer neuron u j) := by
  refine mirrors_bind (dropRows_mirrors [u.upperRow, u.lowerRow] S) fun _ => ?_
  refine mirrors_bind (nextRow_mirrors S) fun base => ?_
  exact mirrors_bind (commit_mirrors S _) fun _ => mirrors_pure S _

/-- Exchanges make the rows of the neurons of a layer agree. -/
theorem replaceUnits_mirrors (S : List RowId) (name : Value) (k i : Nat) {us : List HiddenUnit}
    {js : List (Interval Rat)} (hlen : js.length = us.length) :
    Mirrors (Body.switchRows us ++ S) S (replaceUnits name k i us js) (replaceUnits name k i us js) := by
  induction us generalizing i js with
  | nil => exact mirrors_pure S _
  | cons u us ih =>
    cases js with
    | nil => cases hlen
    | cons j js =>
      refine mirrors_bind (replaceUnit_mirrors (Body.switchRows us ++ S) _ _ _ u j) fun _ => ?_
      exact mirrors_bind (ih (i + 1) (Nat.succ.inj hlen)) fun _ => mirrors_pure S _

end Steps

/-! ### Hidden layers -/

section Layers

open ReluMilp.Action

variable {S : List RowId} {name : Value} {k : Nat} {prev xs ss zs : List VarId} {l : Layer Rat}
  {is is' : List (Interval Rat)} {us : List HiddenUnit} {w w' v : Workspace Rat}

theorem map_name_number {β : Type} (f g : Nat → β → Interval Rat → RowDraft Rat)
    (hf : ∀ i b j j', (f i b j).name = (f i b j').name) (hg : ∀ i b j j', (g i b j).name = (g i b j').name)
    (i : Nat) (bs : List β) {js js' : List (Interval Rat)} (hlen : js'.length = js.length) :
    (number (fun i (p : β × Interval Rat) => [f i p.1 p.2, g i p.1 p.2]) i (bs.zip js')).flatten.map (·.name) =
      (number (fun i (p : β × Interval Rat) => [f i p.1 p.2, g i p.1 p.2]) i (bs.zip js)).flatten.map (·.name) := by
  induction bs generalizing i js js' with
  | nil => rfl
  | cons b bs ih =>
    cases js with
    | nil =>
      rw [List.length_eq_zero_iff.1 hlen]
    | cons j js =>
      cases js' with
      | nil => cases hlen
      | cons j' js' =>
        have hrest := ih (i + 1) (Nat.succ.inj hlen)
        simp only [List.zip_cons_cons, number, List.flatten_cons, List.map_append, List.map_cons, List.map_nil,
          hf i b j' j, hg i b j' j, hrest]

/-- The names of the rows of a layer do not depend on its intervals. -/
theorem map_name_unitDrafts (name : Value) (k : Nat) (xs ss zs : List VarId) (l : Layer Rat) (prev : List VarId)
    (hlen : is'.length = is.length) :
    (unitDrafts name k xs ss zs is' l prev).map (·.name) = (unitDrafts name k xs ss zs is l prev).map (·.name) := by
  unfold unitDrafts
  rw [List.map_append, List.map_append]
  refine congrArg (· ++ _) ?_
  exact map_name_number
    (fun i (p : VarId × VarId × VarId) j =>
      upperDraft (unitRowName name "relu_ub" (indexValue k) (indexValue i)) p.1 p.2.2 j.upper)
    (fun i (p : VarId × VarId × VarId) j =>
      lowerDraft (unitRowName name "relu_lb" (indexValue k) (indexValue i)) p.2.1 p.2.2 j.lower)
    (fun _ _ _ _ => rfl) (fun _ _ _ _ => rfl) 0 _ hlen

/-- The first rows of a layer are those with a binary variable. -/
theorem range_subset_switchRows {base n : Nat} (hx : xs.length = n) (hs : ss.length = n) (hz : zs.length = n) :
    List.range' base (2 * n) ⊆ Body.switchRows (unitsFrom base n xs ss zs) := by
  intro id hid
  obtain ⟨hle, hlt⟩ := List.mem_range'_1.1 hid
  have hl := length_unitsFrom base hx hs hz
  have hi : (id - base) / 2 < (unitsFrom base n xs ss zs).length := by omega
  have hu := List.getElem?_eq_getElem hi
  obtain ⟨-, -, -, hup, hlo, -⟩ := getElem?_unitsFrom hu
  refine List.mem_flatMap.2 ⟨_, List.mem_of_getElem? hu, List.mem_pair.2 ?_⟩
  rw [hup, hlo]
  omega

/-- A layer for other intervals is added alike, and differs in its rows with a binary variable at most. -/
theorem addHidden_mirrors (hagree : w.model.AgreesOff S v.model) (his : is.length = l.outputs)
    (hlen : is'.length = is.length) (h : addHidden name k prev l is w = .ok us w')
    (hS : is' = is ∨ Body.switchRows us ⊆ S) :
    ∃ v', addHidden name k prev l is' v = .ok us v' ∧ w'.model.AgreesOff S v'.model := by
  obtain ⟨xs, w₁, hxs, h⟩ := Action.bind_eq_ok.1 h
  obtain ⟨ss, w₂, hss, h⟩ := Action.bind_eq_ok.1 h
  obtain ⟨zs, w₃, hzs, h⟩ := Action.bind_eq_ok.1 h
  obtain ⟨base, w₄, hbase, h⟩ := Action.bind_eq_ok.1 h
  obtain ⟨rows, w₅, hrows, h⟩ := Action.bind_eq_ok.1 h
  obtain ⟨rfl, rfl⟩ := Action.pure_eq_ok.1 h
  obtain ⟨v₁, hxs', h₁⟩ := addVector_mirrors S _ _ _ _ _ _ _ _ _ hagree hxs
  obtain ⟨v₂, hss', h₂⟩ := addVector_mirrors S _ _ _ _ _ _ _ _ _ h₁ hss
  obtain ⟨v₃, hzs', h₃⟩ := addVector_mirrors S _ _ _ _ _ _ _ _ _ h₂ hzs
  obtain ⟨v₄, hbase', h₄⟩ := nextRow_mirrors S _ _ _ _ h₃ hbase
  obtain ⟨rfl, rfl⟩ := nextRow_eq_ok hbase
  have hxl : xs.length = l.outputs := by rw [(addVector_eq_ok hxs).2, List.length_range']
  have hsl : ss.length = l.outputs := by rw [(addVector_eq_ok hss).2, List.length_range']
  have hzl : zs.length = l.outputs := by rw [(addVector_eq_ok hzs).2, List.length_range']
  obtain ⟨v₅, hrows', hm₅⟩ := commit_of_names (layerBigMBlocks name k xs ss zs is' ++
      [⟨true, layerDrafts (layerName name "mix" k) xs ss l prev⟩]) v₄ hrows h₄.nextRow (by
    rw [flatMap_rows_layer, flatMap_rows_layer]
    exact map_name_unitDrafts name k xs ss zs l prev hlen)
  have hw₅ := (Action.commit_eq_ok hrows).1
  rw [flatMap_rows_layer] at hm₅ hw₅
  refine ⟨v₅, ?_, ?_⟩
  · unfold addHidden
    rw [bind_of_eq_ok hxs', bind_of_eq_ok hss', bind_of_eq_ok hzs', bind_of_eq_ok hbase', bind_of_eq_ok hrows']
    rfl
  · rw [hm₅, hw₅]
    rcases hS with rfl | hS
    · exact h₄.withRows _
    · have hpairs := length_pairDrafts name k hxl hsl hzl his
      have hpairs' := length_pairDrafts name k hxl hsl hzl (hlen.trans his)
      rw [withRows_append, withRows_append]
      refine (h₄.withRows_off (hpairs'.trans hpairs.symm) ?_).withRows _
      rw [hpairs]
      exact List.Subset.trans (range_subset_switchRows hxl hsl hzl) hS

/-- The bounds of a layer are read from a table that is given. -/
theorem layerBounds_given {r : Request Rat} {tpre tpost : List (List (Interval Rat))} {js : List (Interval Rat)}
    (h : r.given = some (tpre ++ js :: tpost)) (solver : Solver Rat) (prev : List VarId) (rectified : Bool)
    (before : List (Interval Rat)) (l : Layer Rat) (v : Workspace Rat) :
    layerBounds solver r (tpre.length + 1) prev rectified before l v = .ok js v := by
  unfold layerBounds
  rw [h]
  show (pure (((tpre ++ js :: tpost)[tpre.length]?).getD []) : Action Rat _) v = _
  rw [getElem?_append_cons]
  rfl

/-- Hidden layers for a table that is given are built alike. They differ in the rows with a binary variable
at most, and not at all if the table is that of the first build. -/
theorem buildHidden_mirrors {solver : Solver Rat} {r r' : Request Rat} {i : Nat} {rectified : Bool}
    {before : List (Interval Rat)} {ls : List (Layer Rat)} {stem : Stem Rat}
    {tpre iss tpost : List (List (Interval Rat))} (rectified' : Bool) (before' : List (Interval Rat))
    (hname : r'.name = r.name)
    (hgiven : r'.given = some (tpre ++ iss ++ tpost)) (hi : tpre.length = i) (hr : r.Fits i ls)
    (hwidths : iss.map List.length = ls.map (·.outputs)) (hagree : w.model.AgreesOff S v.model)
    (h : buildHidden solver r (i + 1) prev rectified before ls w = .ok stem w')
    (hS : iss = stem.table ∨ stem.units.flatMap Body.switchRows ⊆ S) :
    ∃ stem' v', buildHidden solver r' (i + 1) prev rectified' before' ls v = .ok stem' v' ∧
      stem'.units = stem.units ∧ stem'.table = iss ∧ stem'.last = stem.last ∧
      w'.model.AgreesOff S v'.model := by
  induction ls generalizing i prev rectified rectified' before before' w v stem tpre iss with
  | nil =>
    obtain ⟨rfl, rfl⟩ := Action.pure_eq_ok.1 h
    rw [List.map_nil, List.map_eq_nil_iff] at hwidths
    subst hwidths
    exact ⟨_, v, rfl, rfl, rfl, rfl, hagree⟩
  | cons l ls ih =>
    cases iss with
    | nil => cases hwidths
    | cons js iss =>
      obtain ⟨hjs, hwidths'⟩ := List.cons.inj hwidths
      obtain ⟨is, us, rest, w₁, w₂, his, hus, hrest, rfl⟩ := buildHidden_cons h
      have hlen := length_layerBounds hr his
      rw [← (layerBounds_eq_ok his).1] at hagree
      have hlayer : js = is ∨ Body.switchRows us ⊆ S := by
        rcases hS with hS | hS
        · exact .inl (List.cons.inj hS).1
        · exact .inr (List.Subset.trans (List.subset_append_left _ _) hS)
      have hlater : iss = rest.table ∨ rest.units.flatMap Body.switchRows ⊆ S := by
        rcases hS with hS | hS
        · exact .inl (List.cons.inj hS).2
        · exact .inr (List.Subset.trans (List.subset_append_right _ _) hS)
      obtain ⟨v₁, hus', h₁⟩ := addHidden_mirrors hagree hlen (hjs.trans hlen.symm) hus hlayer
      rw [List.append_assoc, List.cons_append] at hgiven
      have hgiven' : r'.given = some ((tpre ++ [js]) ++ iss ++ tpost) := by
        rw [hgiven, List.append_assoc (tpre ++ [js]), ← List.append_cons]
      obtain ⟨stem', v', hrest', hunits, htable, hlast, h'⟩ :=
        ih true js hgiven' (by rw [List.length_append, hi]; rfl) hr.tail hwidths' h₁ hrest hlater
      have hbounds : layerBounds solver r' (i + 1) prev rectified' before' l v = .ok js v :=
        hi ▸ layerBounds_given hgiven solver prev rectified' before' l v
      refine ⟨{ stem' with units := us :: stem'.units, table := js :: stem'.table }, v', ?_, ?_, ?_, hlast, h'⟩
      · unfold buildHidden
        rw [bind_of_eq_ok hbounds, hname, bind_of_eq_ok hus', bind_of_eq_ok hrest']
        rfl
      · rw [hunits]
      · rw [htable]

end Layers

/-! ### Assemblies -/

/-- The request with a table of bounds. -/
def Request.withGiven {α : Type} (r : Request α) (table : List (List (Interval α))) : Request α :=
  { r with given := some table }

/-- With a table that is given, a network is assembled alike. What is assembled differs in the rows with a
binary variable at most, and not at all if the table is that of the first assembly. -/
theorem assemble_mirrors {solver : Solver Rat} {r : Request Rat} {s : Assembled Rat} {S : List RowId}
    {table : List (List (Interval Rat))} {w w' v : Workspace Rat} (last : List (Interval Rat))
    (hr : r.WellFormed) (hwidths : table.map List.length = r.network.hidden.map (·.outputs))
    (hagree : w.model.AgreesOff S v.model) (h : r.assemble solver w = .ok s w')
    (hS : table = s.table ∨ s.body.hidden.flatMap Body.switchRows ⊆ S) :
    ∃ v', (r.withGiven (table ++ [last])).assemble solver v = .ok ⟨s.body, table, last⟩ v' ∧
      w'.model.AgreesOff S v'.model := by
  obtain ⟨inputs, w₁, hinputs, h⟩ := Action.bind_eq_ok.1 h
  obtain ⟨inputRows, w₂, hbox, h⟩ := Action.bind_eq_ok.1 h
  obtain ⟨stem, w₃, hstem, h⟩ := Action.bind_eq_ok.1 h
  obtain ⟨is, w₄, his, h⟩ := Action.bind_eq_ok.1 h
  obtain ⟨outputs, w₅, houtputs, h⟩ := Action.bind_eq_ok.1 h
  obtain ⟨rows, w₆, hrows, h⟩ := Action.bind_eq_ok.1 h
  obtain ⟨rfl, rfl⟩ := Action.pure_eq_ok.1 h
  obtain ⟨v₁, hinputs', h₁⟩ := addVector_mirrors S _ _ _ _ _ _ _ _ _ hagree hinputs
  obtain ⟨v₂, hbox', h₂⟩ := commit_mirrors S _ _ _ _ _ h₁ hbox
  have hname : (r.withGiven (table ++ [last])).name = r.name := rfl
  have hgiven : (r.withGiven (table ++ [last])).given = some ([] ++ table ++ [last]) := rfl
  obtain ⟨stem', v₃, hstem', hunits, htable, hlast, h₃⟩ :=
    buildHidden_mirrors false r.box hname hgiven rfl hr.fits_hidden hwidths h₂ hstem hS
  rw [← (layerBounds_eq_ok his).1] at h₃
  have hbounds : layerBounds solver (r.withGiven (table ++ [last])) (r.network.hidden.length + 1) stem'.last
      stem'.rectified stem'.bounds r.network.output v₃ = .ok last v₃ := by
    have hlen := congrArg List.length hwidths
    rw [List.length_map, List.length_map] at hlen
    rw [← hlen]
    exact layerBounds_given rfl solver _ _ _ _ _
  obtain ⟨v₅, houtputs', h₅⟩ := addVector_mirrors S _ _ _ _ _ _ _ _ _ h₃ houtputs
  obtain ⟨v₆, hrows', h₆⟩ := commit_mirrors S _ _ _ _ _ h₅ hrows
  refine ⟨v₆, ?_, h₆⟩
  rw [← hlast] at hrows'
  refine Action.bind_eq_ok.2 ⟨inputs, v₁, hinputs', ?_⟩
  refine Action.bind_eq_ok.2 ⟨inputRows, v₂, hbox', ?_⟩
  refine Action.bind_eq_ok.2 ⟨stem', v₃, hstem', ?_⟩
  refine Action.bind_eq_ok.2 ⟨last, v₃, hbounds, ?_⟩
  refine Action.bind_eq_ok.2 ⟨outputs, v₅, houtputs', ?_⟩
  refine Action.bind_eq_ok.2 ⟨rows, v₆, hrows', ?_⟩
  rw [hunits, htable]
  rfl

end ReluMilp
