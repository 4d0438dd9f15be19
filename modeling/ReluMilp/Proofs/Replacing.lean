import ReluMilp.Formulation.Replacement
import ReluMilp.Proofs.Assembly
import ReluMilp.Proofs.Evaluating
import Mathlib.Data.List.Pairwise

/-!
# Exchanging the rows of a hidden neuron

* `Model.swap` — the two rows with a binary variable of one neuron exchanged for new ones;
* `Body.withUnit`, `Body.Stands.swap` — then the network still stands in the model, with another interval
  at one place;
* `feasible_swap` — what is feasible after an exchange;
* `replaceUnit_eq_ok` — the action that exchanges rows for an interval;
* `Revision`, `Formulation.Replaced`, `exists_replaced` — the one for bounds that users give, and what it
  leads to.
-/

namespace ReluMilp

/-! ### One place in hidden layers -/

/-- The body with another unit at one place. -/
def Body.withUnit (b : Body) (k i : Nat) (u : HiddenUnit) : Body :=
  { b with hidden := b.hidden.modify k fun us => us.set i u }

section Places

variable {uss : List (List HiddenUnit)} {us : List HiddenUnit} {u : HiddenUnit} {k i : Nat}

theorem set_split {β : Type} {bs : List β} {c : β} {i : Nat} (c' : β) (h : bs[i]? = some c) :
    ∃ before after, bs = before ++ c :: after ∧ bs.set i c' = before ++ c' :: after := by
  induction bs generalizing i with
  | nil => cases h
  | cons b bs ih =>
    cases i with
    | zero =>
      cases h
      exact ⟨[], bs, rfl, rfl⟩
    | succ i =>
      obtain ⟨before, after, hb, hs⟩ := ih h
      refine ⟨b :: before, after, ?_, ?_⟩
      · rw [hb, List.cons_append]
      · rw [List.set_cons_succ, hs, List.cons_append]

/-- The neurons before and after one place. -/
theorem flatten_modify (u' : HiddenUnit) (hk : uss[k]? = some us) (hi : us[i]? = some u) :
    ∃ before after, uss.flatten = before ++ u :: after ∧
      (uss.modify k fun us => us.set i u').flatten = before ++ u' :: after := by
  induction uss generalizing k with
  | nil => cases hk
  | cons vs uss ih =>
    cases k with
    | zero =>
      cases hk
      obtain ⟨before, after, hb, hs⟩ := set_split u' hi
      refine ⟨before, after ++ uss.flatten, ?_, ?_⟩
      · rw [List.flatten_cons, hb, List.append_assoc, List.cons_append]
      · rw [List.modify_zero_cons, List.flatten_cons, hs, List.append_assoc, List.cons_append]
    | succ k =>
      obtain ⟨before, after, hb, hs⟩ := ih hk
      refine ⟨vs ++ before, after, ?_, ?_⟩
      · rw [List.flatten_cons, hb, List.append_assoc]
      · rw [List.modify_succ_cons, List.flatten_cons, hs, List.append_assoc]

theorem map_set_eq {β : Type} {f : HiddenUnit → β} (u' : HiddenUnit) (hi : us[i]? = some u) (hf : f u' = f u) :
    (us.set i u').map f = us.map f := by
  obtain ⟨before, after, hb, hs⟩ := set_split u' hi
  rw [hs, hb, List.map_append, List.map_append, List.map_cons, List.map_cons, hf]

theorem flatMap_modify_eq {β : Type} {f : List HiddenUnit → List β} {u' : HiddenUnit} (hk : uss[k]? = some us)
    (hf : f (us.set i u') = f us) : (uss.modify k fun us => us.set i u').flatMap f = uss.flatMap f := by
  induction uss generalizing k with
  | nil => cases hk
  | cons vs uss ih =>
    cases k with
    | zero =>
      cases hk
      rw [List.modify_zero_cons, List.flatMap_cons, List.flatMap_cons, hf]
    | succ k => rw [List.modify_succ_cons, List.flatMap_cons, List.flatMap_cons, ih hk]

/-- Three values of every item, item by item. -/
theorem perm_triples {β γ : Type} (f g h : β → γ) (bs : List β) :
    (bs.map f ++ bs.map g ++ bs.map h).Perm (bs.flatMap fun b => [f b, g b, h b]) := by
  induction bs with
  | nil => exact .nil
  | cons b bs ih =>
    rw [List.flatMap_cons]
    refine List.Perm.trans ?_ (ih.append_left [f b, g b, h b])
    simp only [List.map_cons, List.cons_append, List.nil_append, List.append_assoc]
    refine .cons _ ?_
    refine List.perm_middle.trans (.cons _ ?_)
    rw [← List.append_assoc, ← List.append_assoc]
    exact List.perm_middle

theorem perm_flatMap_flatten {β γ : Type} {f : List β → List γ} {g : β → List γ}
    (h : ∀ bs, (f bs).Perm (bs.flatMap g)) (bss : List (List β)) :
    (bss.flatMap f).Perm (bss.flatten.flatMap g) := by
  induction bss with
  | nil => exact .nil
  | cons bs bss ih =>
    rw [List.flatMap_cons, List.flatten_cons, List.flatMap_append]
    exact (h bs).append ih

/-- The rows of hidden layers, neuron by neuron. -/
theorem perm_flatMap_unitRows (uss : List (List HiddenUnit)) :
    (uss.flatMap Body.unitRows).Perm (uss.flatten.flatMap HiddenUnit.rows) :=
  perm_flatMap_flatten (perm_triples _ _ _) uss

/-- The variables of hidden layers, neuron by neuron. -/
theorem perm_flatMap_unitVars (uss : List (List HiddenUnit)) :
    (uss.flatMap Body.unitVars).Perm (uss.flatten.flatMap HiddenUnit.vars) :=
  perm_flatMap_flatten (perm_triples _ _ _) uss

/-- Lists without a common item, of items that differ. -/
theorem disjoint_of_nodup_flatMap {β γ : Type} {f : β → List γ} {bs : List β} {b c : β}
    (h : (bs.flatMap f).Nodup) (hb : b ∈ bs) (hc : c ∈ bs) (hne : c ≠ b) :
    List.Disjoint (f c) (f b) := by
  have : Std.Symm (Function.onFun List.Disjoint f) := ⟨fun _ _ hd _ ha hb => hd hb ha⟩
  exact (List.nodup_flatMap.1 h).2.forall hc hb hne

/-- Neurons with distinct rows are distinct, and two of them share no row. -/
theorem nodup_units {us : List HiddenUnit} (h : (us.flatMap HiddenUnit.rows).Nodup) :
    us.Nodup ∧ ∀ u ∈ us, ∀ v ∈ us, v ≠ u → List.Disjoint v.rows u.rows := by
  obtain ⟨-, hpair⟩ := List.nodup_flatMap.1 h
  refine ⟨hpair.imp fun {u v} hd huv => ?_, fun u hu v hv hne => disjoint_of_nodup_flatMap h hu hv hne⟩
  have hdisj : List.Disjoint u.rows v.rows := hd
  rw [huv] at hdisj
  exact hdisj List.mem_cons_self List.mem_cons_self

theorem lastVars_modify {prev : List VarId} {u' : HiddenUnit} (hk : uss[k]? = some us)
    (hi : us[i]? = some u) (hx : u'.x = u.x) :
    lastVars prev (uss.modify k fun us => us.set i u') = lastVars prev uss := by
  induction uss generalizing k prev with
  | nil => cases hk
  | cons vs uss ih =>
    cases k with
    | zero =>
      cases hk
      rw [List.modify_zero_cons, lastVars, lastVars, map_set_eq u' hi hx]
    | succ k => rw [List.modify_succ_cons, lastVars, lastVars, ih hk]

end Places

section Modify

variable {α : Type} {R S : List VarId → Neuron α → HiddenUnit → Interval α → Prop}

theorem Layerwise.modify {prev : List VarId} {ls : List (Layer α)} {uss : List (List HiddenUnit)}
    {iss : List (List (Interval α))} {us : List HiddenUnit} {u u' : HiddenUnit} {j : Interval α} {k i : Nat}
    (h : Layerwise R prev ls uss iss) (hk : uss[k]? = some us) (hi : us[i]? = some u)
    (hnodup : uss.flatten.Nodup) (hx : u'.x = u.x) (h₁ : ∀ p n d, R p n u d → S p n u' j)
    (h₂ : ∀ p n v d, v ∈ uss.flatten → v ≠ u → R p n v d → S p n v d) :
    Layerwise S prev ls (uss.modify k fun us => us.set i u') (iss.modify k fun is => is.set i j) := by
  induction h generalizing k with
  | nil => cases hk
  | @cons prev l vs is ls uss iss hl hrest ih =>
    rw [List.flatten_cons] at hnodup h₂
    obtain ⟨hvs, huss, hdisj⟩ := List.nodup_append'.1 hnodup
    cases k with
    | zero =>
      cases hk
      rw [List.modify_zero_cons, List.modify_zero_cons]
      refine .cons (hl.set hi (fun n d => h₁ _ n d) ?_) ?_
      · intro a n e d hne he
        refine h₂ _ n e d (List.mem_append_left _ (List.mem_of_getElem? he)) ?_
        rintro rfl
        exact hne ((List.getElem?_inj (List.getElem?_eq_some_iff.1 he).1 hvs).1 (he.trans hi.symm))
      · rw [map_set_eq _ hi hx]
        refine hrest.imp fun p n v d hv => h₂ p n v d (List.mem_append_right _ hv) ?_
        rintro rfl
        exact hdisj (List.mem_of_getElem? hi) hv
    | succ k =>
      rw [List.modify_succ_cons, List.modify_succ_cons]
      have hu : u ∈ uss.flatten := List.mem_flatten.2 ⟨us, List.mem_of_getElem? hk, List.mem_of_getElem? hi⟩
      refine .cons (hl.imp fun n v d hv => h₂ _ n v d (List.mem_append_left _ hv) ?_)
        (ih hk huss fun p n v d hv => h₂ p n v d (List.mem_append_right _ hv))
      rintro rfl
      exact hdisj hv hu

end Modify

section At

variable {α : Type}

theorem Forall₃.at {β γ δ : Type} {R : β → γ → δ → Prop} {bs : List β} {done cs : List γ}
    {tdone ds : List δ} {c : γ} {d : δ} (h : Forall₃ R bs (done ++ c :: cs) (tdone ++ d :: ds))
    (hl : tdone.length = done.length) : ∃ b, R b c d := by
  induction done generalizing bs tdone with
  | nil =>
    rw [List.length_nil, List.length_eq_zero_iff] at hl
    rw [hl] at h
    cases h with
    | cons hr _ => exact ⟨_, hr⟩
  | cons e done ih =>
    cases tdone with
    | nil => cases hl
    | cons t tdone =>
      cases h with
      | cons _ hrest => exact ih hrest (Nat.succ.inj hl)

/-- The layers after some others. -/
theorem Layerwise.drop {R : List VarId → Neuron α → HiddenUnit → Interval α → Prop} {prev : List VarId}
    {lpre ls : List (Layer α)} {pre uss : List (List HiddenUnit)} {tpre iss : List (List (Interval α))}
    (h : Layerwise R prev (lpre ++ ls) (pre ++ uss) (tpre ++ iss)) (hl : lpre.length = pre.length)
    (ht : tpre.length = pre.length) : Layerwise R (lastVars prev pre) ls uss iss := by
  induction pre generalizing prev lpre tpre with
  | nil =>
    rw [List.length_nil, List.length_eq_zero_iff] at hl ht
    rw [hl, ht] at h
    exact h
  | cons us pre ih =>
    cases lpre with
    | nil => cases hl
    | cons l lpre =>
    cases tpre with
    | nil => cases ht
    | cons is tpre =>
      cases h with
      | cons _ hrest => exact ih hrest (Nat.succ.inj hl) (Nat.succ.inj ht)

theorem Layerwise.at {R : List VarId → Neuron α → HiddenUnit → Interval α → Prop} {prev : List VarId}
    {ls : List (Layer α)} {pre uss : List (List HiddenUnit)} {tpre tss : List (List (Interval α))}
    {done us : List HiddenUnit} {tdone ds : List (Interval α)} {u : HiddenUnit} {d : Interval α}
    (h : Layerwise R prev ls (pre ++ (done ++ u :: us) :: uss) (tpre ++ (tdone ++ d :: ds) :: tss))
    (hpre : tpre.length = pre.length) (hdone : tdone.length = done.length) : ∃ p n, R p n u d := by
  induction pre generalizing prev ls tpre with
  | nil =>
    rw [List.length_nil, List.length_eq_zero_iff] at hpre
    rw [hpre] at h
    cases h with
    | cons hl _ => exact ⟨_, hl.at hdone⟩
  | cons vs pre ih =>
    cases tpre with
    | nil => cases hpre
    | cons is tpre =>
      cases h with
      | cons _ hrest => exact ih hrest (Nat.succ.inj hpre)

end At

/-! ### Exchanging two rows -/

variable {α : Type} [Scalar α]

/-- The drafts of the rows of a neuron with a binary variable. -/
def HiddenUnit.drafts (u : HiddenUnit) (t t' : String) (j : Interval α) : List (RowDraft α) :=
  [upperDraft t u.x u.z j.upper, lowerDraft t' u.s u.z j.lower]

/-- The model with other rows with a binary variable for a neuron. -/
def Model.swap (m : Model α) (u : HiddenUnit) (t t' : String) (j : Interval α) : Model α :=
  (m.removeRows [u.upperRow, u.lowerRow]).withRows (u.drafts t t' j)

section Filters

variable {β : Type} {f : β → Nat} {ids : List Nat} {bs : List β}

/-- Nothing is filtered out if no number is among the given ones. -/
theorem filter_spared (h : ∀ b ∈ bs, f b ∉ ids) : bs.filter (fun b => !ids.contains (f b)) = bs := by
  refine List.filter_eq_self.2 fun b hb => ?_
  rw [Bool.not_eq_true', List.contains_eq_mem, decide_eq_false_iff_not]
  exact h b hb

/-- Everything is filtered out if all numbers are among the given ones. -/
theorem filter_gone (h : ∀ b ∈ bs, f b ∈ ids) : bs.filter (fun b => !ids.contains (f b)) = [] := by
  refine List.filter_eq_nil_iff.2 fun b hb => ?_
  rw [Bool.not_eq_true', List.contains_eq_mem, decide_eq_false_iff_not, not_not]
  exact h b hb

end Filters

omit [Scalar α] in
theorem mem_removeRows {m : Model α} {ids : List RowId} {r : Row α} :
    r ∈ (m.removeRows ids).rows ↔ r ∈ m.rows ∧ r.id ∉ ids := by
  show r ∈ m.rows.filter (fun r => !ids.contains r.id) ↔ _
  rw [List.mem_filter, Bool.not_eq_true', List.contains_eq_mem, decide_eq_false_iff_not]

omit [Scalar α] in
theorem keeps_removeRows (m : Model α) (ids : List RowId) : m.Keeps (m.removeRows ids) ids :=
  ⟨fun _ hv => hv, fun _ hr hid => mem_removeRows.2 ⟨hr, hid⟩⟩

section Swap

variable {m : Model α} {u : HiddenUnit} {t t' : String} {i j : Interval α} {prev : List VarId}
  {n : Neuron α}

theorem keeps_swap (m : Model α) (u : HiddenUnit) (t t' : String) (j : Interval α) :
    m.Keeps (m.swap u t t' j) [u.upperRow, u.lowerRow] where
  vars := fun _ hv => hv
  rows := fun r hr hid => List.mem_append_left _ ((keeps_removeRows m _).rows r hr hid)

theorem HiddenUnit.Stands.vars_lt (h : u.Stands m prev n i) (hm : m.WellFormed) {id : VarId}
    (hid : id ∈ u.vars) : id < m.nextVar := by
  rcases List.mem_cons.1 hid with rfl | hid
  · obtain ⟨_, hx⟩ := h.value
    exact hm.vars_lt _ hx
  rcases List.mem_cons.1 hid with rfl | hid
  · obtain ⟨_, hs⟩ := h.slack
    exact hm.vars_lt _ hs
  · obtain ⟨_, hz⟩ := h.switch
    rw [List.mem_singleton.1 hid]
    exact hm.vars_lt _ hz

theorem wellFormed_swap (h : u.Stands m prev n i) (hm : m.WellFormed) : (m.swap u t t' j).WellFormed := by
  refine (grown_withRows (m.removeRows [u.upperRow, u.lowerRow]) _ ?_).wellFormed
    (Model.wellFormed_removeRows hm _)
  intro d hd s hs
  have hx : u.x < m.nextVar := h.vars_lt hm List.mem_cons_self
  have hss : u.s < m.nextVar := h.vars_lt hm (List.mem_cons_of_mem _ List.mem_cons_self)
  have hz : u.z < m.nextVar := h.vars_lt hm
    (List.mem_cons_of_mem _ (List.mem_cons_of_mem _ List.mem_cons_self))
  rcases List.mem_pair.1 hd with rfl | rfl
  · rcases List.mem_pair.1 hs with rfl | rfl
    · exact hx
    · exact hz
  · rcases List.mem_pair.1 hs with rfl | rfl
    · exact hss
    · exact hz

/-- A neuron with its rows from a number on. -/
def HiddenUnit.moved (u : HiddenUnit) (base : RowId) : HiddenUnit :=
  { u with upperRow := base, lowerRow := base + 1 }

/-- The neuron whose rows are exchanged stands in the model with the new interval. -/
theorem stands_swap (h : u.Stands m prev n i) (ha : u.affineRow ∉ [u.upperRow, u.lowerRow]) :
    (u.moved m.nextRow).Stands (m.swap u t t' j) prev n j where
  value := h.value.imp fun _ => (keeps_swap m u t t' j).vars _
  slack := h.slack.imp fun _ => (keeps_swap m u t t' j).vars _
  switch := h.switch.imp fun _ => (keeps_swap m u t t' j).vars _
  upper := ⟨t, mem_withRows (m.removeRows [u.upperRow, u.lowerRow]) (k := 0) rfl⟩
  lower := ⟨t', mem_withRows (m.removeRows [u.upperRow, u.lowerRow]) (k := 1) rfl⟩
  affine := h.affine.imp fun _ hr => (keeps_swap m u t t' j).rows _ hr ha

end Swap

theorem vars_withUnit {b : Body} {k i : Nat} {us : List HiddenUnit} {u : HiddenUnit} (base : RowId)
    (hk : b.hidden[k]? = some us) (hi : us[i]? = some u) :
    (b.withUnit k i (u.moved base)).vars = b.vars := by
  unfold Body.vars Body.withUnit
  dsimp only
  rw [flatMap_modify_eq hk]
  unfold Body.unitVars
  rw [map_set_eq (u.moved base) hi rfl, map_set_eq (u.moved base) hi rfl,
    map_set_eq (u.moved base) hi rfl]

/-- All rows of a body but those of one neuron, before and after it is exchanged. -/
theorem rows_withUnit {b : Body} {k i : Nat} {us : List HiddenUnit} {u : HiddenUnit} (u' : HiddenUnit)
    (hk : b.hidden[k]? = some us) (hi : us[i]? = some u) :
    ∃ rest, b.rows.Perm (u.rows ++ rest) ∧ (b.withUnit k i u').rows.Perm (u'.rows ++ rest) := by
  obtain ⟨before, after, hb, hs⟩ := flatten_modify u' hk hi
  have hperm : ∀ (v : HiddenUnit) (hidden : List (List HiddenUnit)),
      hidden.flatten = before ++ v :: after →
      ({ b with hidden := hidden } : Body).rows.Perm (v.rows ++
        (b.inputRows ++ (before ++ after).flatMap HiddenUnit.rows ++ (b.outputRows ++ b.rangeRows))) := by
    intro v hidden hv
    have hh : (hidden.flatMap Body.unitRows).Perm
        (v.rows ++ (before ++ after).flatMap HiddenUnit.rows) := by
      refine (perm_flatMap_unitRows hidden).trans ?_
      rw [hv, ← List.flatMap_cons]
      exact List.perm_middle.flatMap_right _
    show (b.inputRows ++ hidden.flatMap Body.unitRows ++ b.outputRows ++ b.rangeRows).Perm _
    rw [List.append_assoc _ b.outputRows, ← List.append_assoc v.rows, ← List.append_assoc v.rows]
    refine List.Perm.append_right _ ((hh.append_left b.inputRows).trans ?_)
    rw [← List.append_assoc]
    exact List.Perm.append_right _ List.perm_append_comm
  exact ⟨_, hperm u b.hidden hb, hperm u' _ hs⟩

theorem Body.Stands.units_nodup {m : Model α} {n : Network α} {b : Body}
    {table : List (List (Interval α))} (h : b.Stands m n table) :
    (b.hidden.flatten.flatMap HiddenUnit.rows).Nodup := by
  refine (perm_flatMap_unitRows b.hidden).nodup (h.rows_nodup.sublist ?_)
  unfold Body.rows
  rw [List.append_assoc, List.append_assoc]
  exact (List.sublist_append_left _ _).trans (List.sublist_append_right _ _)

theorem Body.Stands.affine_notMem {m : Model α} {n : Network α} {b : Body}
    {table : List (List (Interval α))} {u : HiddenUnit} (h : b.Stands m n table)
    (hu : u ∈ b.hidden.flatten) : u.affineRow ∉ [u.upperRow, u.lowerRow] :=
  (List.nodup_cons.1 ((List.nodup_flatMap.1 h.units_nodup).1 u hu)).1

/-- The rows of a hidden neuron are no rows of outputs. -/
theorem Body.Stands.outputRows_disjoint {m : Model α} {n : Network α} {b : Body}
    {table : List (List (Interval α))} {u : HiddenUnit} (h : b.Stands m n table)
    (hu : u ∈ b.hidden.flatten) : List.Disjoint u.rows b.outputRows := by
  have hnodup := h.rows_nodup
  unfold Body.rows at hnodup
  obtain ⟨-, -, hdisj⟩ := List.nodup_append'.1 (List.nodup_append'.1 hnodup).1
  intro id hid hout
  refine hdisj (List.mem_append_right _ ?_) hout
  exact (perm_flatMap_unitRows b.hidden).mem_iff.2 (List.mem_flatMap.2 ⟨u, hu, hid⟩)

/-- New rows have numbers that no row had before. -/
theorem HiddenUnit.nodup_moved {u : HiddenUnit} {rest : List RowId} {base : RowId}
    (h : (u.rows ++ rest).Nodup) (hlt : ∀ id ∈ u.rows ++ rest, id < base) :
    ((u.moved base).rows ++ rest).Nodup := by
  obtain ⟨-, hrest, hdisj⟩ := List.nodup_append'.1 h
  have haffine : u.affineRow < base := hlt _ (List.mem_append_left _ List.mem_cons_self)
  refine List.nodup_append'.2 ⟨?_, hrest, ?_⟩
  · show [u.affineRow, base, base + 1].Nodup
    simp only [List.nodup_cons, List.mem_cons, List.not_mem_nil, or_false, not_false_eq_true,
      List.nodup_nil, and_true, not_or]
    exact ⟨⟨haffine.ne, (Nat.lt_succ_of_lt haffine).ne⟩, (Nat.lt_succ_self _).ne⟩
  · intro id hid hr
    have hid_lt := hlt id (List.mem_append_right _ hr)
    rcases List.mem_cons.1 hid with rfl | hid
    · exact hdisj List.mem_cons_self hr
    · rcases List.mem_pair.1 hid with rfl | rfl
      · exact absurd hid_lt (Nat.lt_irrefl _)
      · exact absurd hid_lt (Nat.not_lt.2 (Nat.le_succ _))

theorem HiddenUnit.moved_lt {u : HiddenUnit} {rest : List RowId} {base : RowId}
    (hlt : ∀ id ∈ u.rows ++ rest, id < base) : ∀ id ∈ (u.moved base).rows ++ rest, id < base + 2 := by
  intro id hid
  rcases List.mem_append.1 hid with hid | hid
  · rcases List.mem_cons.1 hid with rfl | hid
    · exact Nat.lt_add_right 2 (hlt u.affineRow (List.mem_append_left _ List.mem_cons_self))
    · rcases List.mem_pair.1 hid with rfl | rfl
      · exact Nat.lt_add_of_pos_right Nat.two_pos
      · exact Nat.lt_succ_self _
  · exact Nat.lt_add_right 2 (hlt id (List.mem_append_right _ hid))

/-- A network stands in a model after the rows of one neuron are exchanged, with another interval at
its place. -/
theorem Body.Stands.swap {m : Model α} {n : Network α} {b : Body} {table : List (List (Interval α))}
    {k i : Nat} {us : List HiddenUnit} {u : HiddenUnit} (h : b.Stands m n table) (hm : m.WellFormed)
    (hk : b.hidden[k]? = some us) (hi : us[i]? = some u) (t t' : String) (j : Interval α) :
    (b.withUnit k i (u.moved m.nextRow)).Stands (m.swap u t t' j) n
        (table.modify k fun is => is.set i j) ∧ (m.swap u t t' j).WellFormed := by
  have hmem : u ∈ b.hidden.flatten := List.mem_flatten.2 ⟨us, List.mem_of_getElem? hk, List.mem_of_getElem? hi⟩
  obtain ⟨p, n', d, hu⟩ := h.hidden.exists_of_mem hmem
  obtain ⟨rest, hp, hp'⟩ := rows_withUnit (u.moved m.nextRow) hk hi
  have hlt : ∀ id ∈ u.rows ++ rest, id < m.nextRow := fun id hid => h.rows_lt id (hp.mem_iff.2 hid)
  obtain ⟨hflat, hne⟩ := nodup_units h.units_nodup
  have haffine := h.affine_notMem hmem
  have hgone : [u.upperRow, u.lowerRow] ⊆ u.rows := List.subset_cons_self _ _
  have hkeeps := keeps_swap m u t t' j
  refine ⟨⟨?_, h.inputs_length, ?_, ?_, ?_, ?_, ?_, ?_⟩, wellFormed_swap hu hm⟩
  · exact h.inputs.keep hkeeps
  · refine h.hidden.modify hk hi hflat rfl (fun p n d hd => stands_swap hd haffine) ?_
    intro p n v d hv hvu hd
    have hd' := hne u hmem v hv hvu
    refine hd.keep hkeeps ?_ ?_ ?_
    · exact fun hid => hd' (List.mem_cons_of_mem _ List.mem_cons_self) (hgone hid)
    · exact fun hid => hd' (List.mem_cons_of_mem _ (List.mem_cons_of_mem _ List.mem_cons_self)) (hgone hid)
    · exact fun hid => hd' List.mem_cons_self (hgone hid)
  · exact h.outputs.keep hkeeps
  · have hlast : lastVars b.inputs (b.hidden.modify k fun us => us.set i (u.moved m.nextRow)) =
        lastVars b.inputs b.hidden := lastVars_modify hk hi rfl
    show Forall₃ (OutputStands _ (lastVars b.inputs (b.hidden.modify k _))) _ _ _
    rw [hlast]
    refine h.output_rows.imp_right fun n x row hrow hs => hs.imp fun _ hr => hkeeps.rows _ hr ?_
    exact fun hid => h.outputRows_disjoint hmem (hgone hid) hrow
  · rw [vars_withUnit _ hk hi]
    exact h.vars_nodup
  · exact hp'.symm.nodup (HiddenUnit.nodup_moved (hp.nodup h.rows_nodup) hlt)
  · intro id hid
    exact HiddenUnit.moved_lt hlt id (hp'.mem_iff.1 hid)

/-! ### Feasible assignments after an exchange -/

section Feasible

variable {m : Model Rat} {u : HiddenUnit} {t t' : String} {i j : Interval Rat} {prev : List VarId}
  {n : Neuron Rat} {x : Assignment Rat}

theorem feasible_removeRows (hx : m.Feasible x) (ids : List RowId) : (m.removeRows ids).Feasible x :=
  ⟨hx.1, fun r hr => hx.2 r (mem_removeRows.1 hr).1⟩

/-- Without its two rows with a binary variable, a neuron is still split at zero by its other parts. -/
theorem HiddenUnit.Stands.based (h : u.Stands m prev n i) (ha : u.affineRow ∉ [u.upperRow, u.lowerRow])
    (hx : (m.removeRows [u.upperRow, u.lowerRow]).Feasible x) : u.Based x prev n := by
  obtain ⟨_, hvx⟩ := h.value
  obtain ⟨_, hvs⟩ := h.slack
  obtain ⟨_, hvz⟩ := h.switch
  obtain ⟨_, hr⟩ := h.affine
  exact ⟨admits_nonneg.1 (hx.1 _ hvx), admits_nonneg.1 (hx.1 _ hvs), admits_binary.1 (hx.1 _ hvz),
    (holds_hidden _ _ _ _ _ _ _).1 (hx.2 _ (mem_removeRows.2 ⟨hr, ha⟩))⟩

theorem HiddenUnit.Stands.feasible_iff (h : u.Stands m prev n i) (hm : m.WellFormed) :
    m.Feasible x ↔ (m.removeRows [u.upperRow, u.lowerRow]).Feasible x ∧ u.BigM x prev n i := by
  constructor
  · intro hx
    exact ⟨feasible_removeRows hx _, (h.satisfiedOn_iff hm).1 (hx.satisfiedOn _ _)⟩
  · rintro ⟨hx, hbig⟩
    have hsat := (h.satisfiedOn_iff hm).2 hbig
    refine ⟨hx.1, fun r hr => ?_⟩
    by_cases hid : r.id ∈ [u.upperRow, u.lowerRow]
    · exact hsat.2 r hr (List.mem_cons_of_mem _ hid)
    · exact hx.2 r (mem_removeRows.2 ⟨hr, hid⟩)

theorem HiddenUnit.Stands.feasible_swap_iff (h : u.Stands m prev n i)
    (ha : u.affineRow ∉ [u.upperRow, u.lowerRow]) :
    (m.swap u t t' j).Feasible x ↔
      (m.removeRows [u.upperRow, u.lowerRow]).Feasible x ∧ u.BigM x prev n j := by
  unfold Model.swap
  rw [feasible_withRows]
  refine and_congr_right fun hx => ?_
  rw [HiddenUnit.bigM_iff, ← holds_upper t 0, ← holds_lower t' 0, RowDraft.holds_toRow,
    RowDraft.holds_toRow]
  show (∀ d ∈ [upperDraft t u.x u.z j.upper, lowerDraft t' u.s u.z j.lower], _) ↔ _
  rw [List.forall_mem_cons, List.forall_mem_singleton]
  exact ⟨fun hd => ⟨h.based ha hx, hd⟩, fun hd => hd.2⟩

/-- Rows that are exchanged for those of an interval within the old one cut nothing off, if every new
bound is one of the affine value of all feasible assignments. -/
theorem feasible_swap (h : u.Stands m prev n i) (hm : m.WellFormed)
    (ha : u.affineRow ∉ [u.upperRow, u.lowerRow]) (hin : i.Within j)
    (hat : ∀ x, m.Feasible x → i.ReplacedAt j (x u.x - x u.s)) :
    (m.swap u t t' j).Feasible x ↔ m.Feasible x := by
  rw [h.feasible_swap_iff ha]
  constructor
  · rintro ⟨hx, hbig⟩
    exact (h.feasible_iff hm).2 ⟨hx, hbig.loosen hin⟩
  · intro hx
    obtain ⟨hrest, hbig⟩ := (h.feasible_iff hm).1 hx
    have hrep := hat x hx
    rw [hbig.affine] at hrep
    exact ⟨hrest, hbig.tighten hrep⟩

end Feasible

/-! ### Actions that exchange rows -/

omit [Scalar α] in
theorem flatMap_bigMBlocks [Scalar α] (name layer neuron : Value) (x s z : VarId) (i : Interval α) :
    ∃ t t', (bigMBlocks name layer neuron x s z i).flatMap (·.rows) =
      [upperDraft t x z i.upper, lowerDraft t' s z i.lower] :=
  ⟨_, _, rfl⟩

theorem replaceUnit_swaps {name layer neuron : Value} {u u' : HiddenUnit} {j : Interval α}
    {w w' : Workspace α} (h : replaceUnit name layer neuron u j w = .ok u' w') :
    u' = u.moved w.model.nextRow ∧ w'.model = w.model.swap u (unitRowName name "relu_ub" layer neuron)
      (unitRowName name "relu_lb" layer neuron) j := by
  obtain ⟨_, w₁, hdrop, h⟩ := Action.bind_eq_ok.1 h
  obtain ⟨base, w₂, hbase, h⟩ := Action.bind_eq_ok.1 h
  obtain ⟨ids, w₃, hcommit, h⟩ := Action.bind_eq_ok.1 h
  obtain ⟨rfl, rfl⟩ := Action.pure_eq_ok.1 h
  have h₁ := Action.dropRows_eq_ok.1 hdrop
  obtain ⟨rfl, h₂⟩ := nextRow_eq_ok hbase
  obtain ⟨h₃, -⟩ := Action.commit_eq_ok hcommit
  rw [h₂, h₁] at h₃
  refine ⟨?_, h₃⟩
  rw [h₁]
  rfl

theorem replaceUnit_eq_ok {name layer neuron : Value} {u u' : HiddenUnit} {j : Interval α}
    {w w' : Workspace α} (h : replaceUnit name layer neuron u j w = .ok u' w') :
    u' = u.moved w.model.nextRow ∧ ∃ t t', w'.model = w.model.swap u t t' j :=
  ⟨(replaceUnit_swaps h).1, _, _, (replaceUnit_swaps h).2⟩

section ReplaceBigM

variable {β : Type} {f g : Formulation α} {layer neuron name : Value} {upper lower : BoundArgument α}
  {u u' : HiddenUnit} {w w' : Workspace α}

omit [Scalar α] in
theorem attempt_of_eq_ok {act : Action α β} {b : β} (h : act w = .ok b w') : act.attempt w = .ok (.ok b) w' := by
  unfold Action.attempt
  rw [h]

omit [Scalar α] in
theorem attempt_of_eq_error {act : Action α β} {fault : Fault} (h : act w = .error fault w') :
    act.attempt w = .ok (.error fault) w' := by
  unfold Action.attempt
  rw [h]

omit [Scalar α] in
theorem attempt_eq_ok {act : Action α β} {e : Except Fault β} (h : act.attempt w = .ok e w') :
    (∃ b, e = .ok b ∧ act w = .ok b w') ∨ ∃ fault, e = .error fault := by
  unfold Action.attempt at h
  cases hact : act w with
  | ok b v =>
    rw [hact] at h
    cases h
    exact .inl ⟨b, rfl, rfl⟩
  | error fault v =>
    rw [hact] at h
    cases h
    exact .inr ⟨fault, rfl⟩

/-- Rows that are renewed without a refusal are those of the numbers that were given. -/
theorem renewRows_eq_ok (h : renewRows name layer neuron u upper lower w = .ok ⟨u', none⟩ w') :
    ∃ j : Interval α, upper.used = .ok j.upper ∧ lower.used = .ok j.lower ∧
      (∃ v ids v', Action.commit (bigMBlocks name layer neuron u.x u.s u.z j) v = .ok ids v') ∧
      u' = u.moved w.model.nextRow ∧ w'.model = w.model.withRows (u.drafts
        (unitRowName name "relu_ub" layer neuron) (unitRowName name "relu_lb" layer neuron) j) := by
  obtain ⟨base, w₁, hbase, h⟩ := Action.bind_eq_ok.1 h
  obtain ⟨rfl, rfl⟩ := nextRow_eq_ok hbase
  cases hupper : upper.used with
  | error fault =>
    rw [hupper] at h
    obtain ⟨hu, -⟩ := Action.pure_eq_ok.1 h
    cases hu
  | ok a =>
  cases hlower : lower.used with
  | error fault =>
    rw [hupper, hlower] at h
    obtain ⟨e, w₂, hstage, h⟩ := Action.bind_eq_ok.1 h
    cases e with
    | ok ids =>
      obtain ⟨hu, -⟩ := Action.pure_eq_ok.1 h
      cases hu
    | error fault' =>
      obtain ⟨hu, -⟩ := Action.pure_eq_ok.1 h
      cases hu
  | ok c =>
    rw [hupper, hlower] at h
    obtain ⟨e, w₂, hattempt, h⟩ := Action.bind_eq_ok.1 h
    obtain ⟨ids, rfl, hcommit⟩ | ⟨fault, rfl⟩ := attempt_eq_ok hattempt
    · obtain ⟨hu, rfl⟩ := Action.pure_eq_ok.1 h
      cases hu
      obtain ⟨hm, -⟩ := Action.commit_eq_ok hcommit
      exact ⟨⟨a, c⟩, rfl, rfl, ⟨_, _, _, hcommit⟩, rfl, hm⟩
    · obtain ⟨hu, -⟩ := Action.pure_eq_ok.1 h
      cases hu

omit [Scalar α] in
/-- Bounds that are stored change nothing but the table. -/
theorem storeBounds_result (f : Formulation α) (k : Nat) (which : Formulation.Selection)
    (upper lower : BoundArgument α) :
    ∃ table, (f.storeBounds k which upper lower).result = { f with table := table } := by
  unfold Formulation.storeBounds
  dsimp only
  split
  · exact ⟨f.table, rfl⟩
  · split
    · exact ⟨_, rfl⟩
    · exact ⟨_, rfl⟩

omit [Scalar α] in
/-- A unit that is found in a formulation stands in its body. -/
theorem exists_of_hidden {k i : Nat} (h : ((f.hidden[k]?).getD [])[i]? = some u) :
    ∃ b us, f.body? = some b ∧ b.hidden[k]? = some us ∧ us[i]? = some u := by
  unfold Formulation.hidden at h
  cases hb : f.body? with
  | none =>
    rw [hb] at h
    cases h
  | some b =>
    rw [hb] at h
    cases hk : b.hidden[k]? with
    | none =>
      have hnil : (((some b).map (·.hidden)).getD [])[k]? = none := hk
      rw [hnil] at h
      cases h
    | some us =>
      have hsome : (((some b).map (·.hidden)).getD [])[k]? = some us := hk
      rw [hsome] at h
      exact ⟨b, us, rfl, hk, h⟩

/-- Bounds for a neuron as they are asked for. -/
structure Revision (α : Type) where
  layer : Value
  neuron : Value
  upper : BoundArgument α
  lower : BoundArgument α

/-- A replacement that was not refused: the place and the unit of the neuron, the bounds that its rows are
made of, and what became of the formulation and of the model. -/
structure Formulation.Replaced (f : Formulation α) (c : Revision α) (m : Model α) (b : Body) (k i : Nat)
    (us : List HiddenUnit) (u : HiddenUnit) (j : Interval α) (g : Formulation α) (m' : Model α) :
    Prop where
  body : f.body? = some b
  layer : f.hiddenPosition c.layer = .ok k
  neuron : neuronPosition us.length c.neuron = .ok i
  units : b.hidden[k]? = some us
  unit : us[i]? = some u
  stored : (f.storeBounds k (.single i) c.upper c.lower).refusal = none
  upper : c.upper.used = .ok j.upper
  lower : c.lower.used = .ok j.lower
  whole : ∃ a, c.layer.index? = some a
  number : ∀ t, c.neuron ≠ .bool t
  taken : ∃ v ids v', Action.commit (bigMBlocks f.name c.layer c.neuron u.x u.s u.z j) v = .ok ids v'
  result : g = { (f.storeBounds k (.single i) c.upper c.lower).result with
    body? := some (b.withUnit k i (u.moved m.nextRow)) }
  model : m' = m.swap u (unitRowName f.name "relu_ub" c.layer c.neuron)
    (unitRowName f.name "relu_lb" c.layer c.neuron) j

theorem exists_replaced (h : f.replaceBigM layer neuron upper lower w = .ok ⟨g, none⟩ w') :
    ∃ b k i us u j, f.Replaced ⟨layer, neuron, upper, lower⟩ w.model b k i us u j g w'.model := by
  obtain ⟨k, w₁, hlayer, h⟩ := Action.bind_eq_ok.1 h
  obtain ⟨i, w₂, hneuron, h⟩ := Action.bind_eq_ok.1 h
  obtain ⟨hk, rfl⟩ := Action.ofExcept_eq_ok.1 hlayer
  obtain ⟨hi, rfl⟩ := Action.ofExcept_eq_ok.1 hneuron
  cases hu : ((f.hidden[k]?).getD [])[i]? with
  | none =>
    rw [hu] at h
    exact absurd h Action.throw_ne_ok
  | some u =>
    rw [hu] at h
    obtain ⟨_, w₃, hdrop, h⟩ := Action.bind_eq_ok.1 h
    have hw₃ := Action.dropRows_eq_ok.1 hdrop
    obtain ⟨b, us, hb, hkb, hiu⟩ := exists_of_hidden hu
    have hus : (f.hidden[k]?).getD [] = us := by
      unfold Formulation.hidden
      rw [hb]
      show (b.hidden[k]?).getD [] = us
      rw [hkb]
      rfl
    rw [hus] at hi
    cases hindex : layer.index? with
    | none =>
      rw [hindex] at h
      obtain ⟨hg, -⟩ := Action.pure_eq_ok.1 h
      cases hg
    | some a =>
      rw [hindex] at h
      dsimp only at h
      cases href : (f.storeBounds k (.ofValue i neuron) upper lower).refusal with
      | some fault =>
        rw [href] at h
        obtain ⟨hg, -⟩ := Action.pure_eq_ok.1 h
        rw [hg] at href
        cases href
      | none =>
        rw [href] at h
        -- a truth value is refused, and everything else stands for a single neuron
        have hrenew : Formulation.Selection.ofValue i neuron = .single i ∧ (∀ t, neuron ≠ .bool t) ∧
            ∃ renewed v, renewRows f.name layer neuron u upper lower w₃ = .ok renewed v ∧
            (pure ⟨(f.storeBounds k (.ofValue i neuron) upper lower).result.withUnit k i renewed.result,
              renewed.refusal⟩ : Action α (Replacement (Formulation α))) v = .ok ⟨g, none⟩ w' := by
          cases neuron with
          | bool b =>
            obtain ⟨hg, -⟩ := Action.pure_eq_ok.1 h
            cases hg
          | null | int _ | real _ | text _ | list _ | record _ =>
            exact ⟨rfl, fun _ ht => (nomatch ht), Action.bind_eq_ok.1 h⟩
        obtain ⟨hsingle, hnumber, ⟨u', refusal⟩, v, hrenew, h⟩ := hrenew
        rw [hsingle] at h href
        obtain ⟨hg, rfl⟩ := Action.pure_eq_ok.1 h
        obtain ⟨table, htable⟩ := storeBounds_result f k (.single i) upper lower
        cases hg
        obtain ⟨j, ha, hc, htaken, rfl, hm⟩ := renewRows_eq_ok hrenew
        rw [hw₃] at hm
        refine ⟨b, k, i, us, u, j, hb, hk, hi, hkb, hiu, href, ha, hc, ⟨a, hindex⟩, hnumber, htaken, ?_, hm⟩
        rw [htable, hw₃]
        show ({ f with table := table, body? := _ } : Formulation α) = _
        rw [hb]
        rfl

/-- A replacement changes the table and the unit of one neuron, and nothing else. -/
theorem Formulation.Replaced.fixed {c : Revision α} {m m' : Model α} {b : Body} {k i : Nat}
    {us : List HiddenUnit} {j : Interval α} (h : f.Replaced c m b k i us u j g m') :
    g.network = f.network ∧ g.mode = f.mode ∧ g.name = f.name ∧
      g.body? = some (b.withUnit k i (u.moved m.nextRow)) := by
  obtain ⟨table, htable⟩ := storeBounds_result f k (.single i) c.upper c.lower
  have hg := h.result
  rw [htable] at hg
  rw [hg]
  exact ⟨rfl, rfl, rfl, rfl⟩

/-- A replacement that is not refused exchanges the rows of one neuron for those of an interval. -/
theorem replaceBigM_eq_ok (h : f.replaceBigM layer neuron upper lower w = .ok ⟨g, none⟩ w') :
    g.network = f.network ∧ ∃ b k us i u t t' j, f.body? = some b ∧ b.hidden[k]? = some us ∧
      us[i]? = some u ∧ g.body? = some (b.withUnit k i (u.moved w.model.nextRow)) ∧
      w'.model = w.model.swap u t t' j := by
  obtain ⟨b, k, i, us, u, j, hr⟩ := exists_replaced h
  obtain ⟨hnetwork, -, -, hbody⟩ := hr.fixed
  exact ⟨hnetwork, b, k, us, i, u, _, _, j, hr.body, hr.units, hr.unit, hbody, hr.model⟩

end ReplaceBigM

end ReluMilp
