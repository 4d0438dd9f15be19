import ReluMilp.Proofs.Exchanges

/-!
# Rows with a binary variable

Every hidden neuron has two rows with its binary variable. What such rows say at every place of a network,
together with the rows that are none of them, is all that a model has.

* `Row.content` — a row without its number;
* `HiddenUnit.switches`, `Body.switches` — the numbers of such rows;
* `Model.contents` — what the two rows of a neuron say;
* `perm_contents` — the rows of a model, sorted by the neurons that they belong to;
* `contents_swap_self`, `contents_swap_other`, `removeRows_switches_swap` — what an exchange does to them;
* `at?` — the item at a place of a list of lists.
-/

namespace ReluMilp

open scoped List

variable {α : Type}

/-- A row without its number. -/
def Row.content (r : Row α) : RowDraft α := ⟨r.name, r.terms, r.sense, r.rhs⟩

/-- The numbers of the two rows with the binary variable of a neuron. -/
def HiddenUnit.switches (u : HiddenUnit) : List RowId := [u.upperRow, u.lowerRow]

/-- The numbers of all rows with a binary variable. -/
def Body.switches (b : Body) : List RowId := b.hidden.flatten.flatMap HiddenUnit.switches

/-- The rows with some numbers, without these. -/
def Model.contents (m : Model α) (ids : List RowId) : List (RowDraft α) :=
  (m.rows.filter fun r => ids.contains r.id).map Row.content

/-! ### Sorting the rows of a model -/

/-- Rows sorted by lists of numbers of which no two have a number in common. -/
theorem perm_filter_flatMap {β : Type} {f : β → List RowId} {us : List β} (rs : List (Row α))
    (h : (us.flatMap f).Nodup) :
    rs.Perm ((rs.filter fun r => !(us.flatMap f).contains r.id) ++
      us.flatMap fun u => rs.filter fun r => (f u).contains r.id) := by
  induction us with
  | nil =>
    have hall : rs.filter (fun r => !(([] : List β).flatMap f).contains r.id) = rs :=
      List.filter_eq_self.2 fun _ _ => rfl
    rw [hall, List.flatMap_nil, List.append_nil]
  | cons u us ih =>
    rw [List.flatMap_cons] at h
    obtain ⟨-, hrest, hdisj⟩ := List.nodup_append'.1 h
    -- the rows of the first are among those that belong to no other
    have hfirst : (rs.filter fun r => !(us.flatMap f).contains r.id).filter
        (fun r => (f u).contains r.id) = rs.filter fun r => (f u).contains r.id := by
      rw [List.filter_filter]
      refine List.filter_congr fun r _ => ?_
      cases hu : (f u).contains r.id with
      | false => rfl
      | true =>
        have hmem : r.id ∉ us.flatMap f := hdisj (List.contains_iff_mem.1 hu)
        rw [Bool.true_and, Bool.not_eq_true', List.contains_eq_mem, decide_eq_false_iff_not]
        exact hmem
    have hothers : (rs.filter fun r => !(us.flatMap f).contains r.id).filter
        (fun r => !(f u).contains r.id) = rs.filter fun r => !((u :: us).flatMap f).contains r.id := by
      rw [List.filter_filter]
      refine List.filter_congr fun r _ => ?_
      rw [List.flatMap_cons, List.contains_eq_mem, List.contains_eq_mem, List.contains_eq_mem]
      simp only [List.mem_append, Bool.decide_or, Bool.not_or]
    have hsplit := List.filter_append_perm (fun r : Row α => (f u).contains r.id)
      (rs.filter fun r => !(us.flatMap f).contains r.id)
    rw [hfirst, hothers] at hsplit
    calc rs
      _ ~ (rs.filter fun r => !(us.flatMap f).contains r.id) ++
          us.flatMap fun u => rs.filter fun r => (f u).contains r.id := ih hrest
      _ ~ ((rs.filter fun r => (f u).contains r.id) ++
          rs.filter fun r => !((u :: us).flatMap f).contains r.id) ++
          us.flatMap fun u => rs.filter fun r => (f u).contains r.id := hsplit.symm.append_right _
      _ ~ ((rs.filter fun r => !((u :: us).flatMap f).contains r.id) ++
          rs.filter fun r => (f u).contains r.id) ++
          us.flatMap fun u => rs.filter fun r => (f u).contains r.id :=
        List.perm_append_comm.append_right _
      _ = (rs.filter fun r => !((u :: us).flatMap f).contains r.id) ++
          (u :: us).flatMap fun u => rs.filter fun r => (f u).contains r.id := by
        rw [List.append_assoc]
        rfl

/-- The rows of a model are those without a binary variable and those of every neuron. -/
theorem perm_contents {m : Model α} {b : Body} (h : b.switches.Nodup) :
    (m.rows.map Row.content).Perm ((m.removeRows b.switches).rows.map Row.content ++
      b.hidden.flatten.flatMap fun u => m.contents u.switches) := by
  have hperm := (perm_filter_flatMap m.rows h).map Row.content
  rw [List.map_append, List.map_flatMap] at hperm
  exact hperm

theorem sublist_switches (us : List HiddenUnit) :
    (us.flatMap HiddenUnit.switches).Sublist (us.flatMap HiddenUnit.rows) := by
  induction us with
  | nil => exact List.Sublist.refl _
  | cons u us ih =>
    rw [List.flatMap_cons, List.flatMap_cons]
    exact (List.sublist_cons_self _ _).append ih

theorem Body.Stands.switches_nodup [Scalar α] {m : Model α} {n : Network α} {b : Body}
    {table : List (List (Interval α))} (h : b.Stands m n table) : b.switches.Nodup :=
  h.units_nodup.sublist (sublist_switches _)

/-! ### What an exchange does -/

section Swap

variable [Scalar α] {m : Model α} {u : HiddenUnit} {t t' : String} {j : Interval α}

theorem swap_rows (m : Model α) (u : HiddenUnit) (t t' : String) (j : Interval α) :
    (m.swap u t t' j).rows = (m.removeRows u.switches).rows ++
      [(upperDraft t u.x u.z j.upper).toRow m.nextRow,
        (lowerDraft t' u.s u.z j.lower).toRow (m.nextRow + 1)] := rfl

/-- After an exchange the rows of the neuron say what its new bounds do. -/
theorem contents_swap_self (hm : m.WellFormed) :
    (m.swap u t t' j).contents (u.moved m.nextRow).switches =
      [((upperDraft t u.x u.z j.upper).toRow m.nextRow).content,
        ((lowerDraft t' u.s u.z j.lower).toRow (m.nextRow + 1)).content] := by
  have hold : (m.removeRows u.switches).rows.filter
      (fun r => (u.moved m.nextRow).switches.contains r.id) = [] := by
    refine List.filter_eq_nil_iff.2 fun r hr => ?_
    have hlt := hm.rows_lt r (mem_removeRows.1 hr).1
    rw [List.contains_eq_mem, decide_eq_true_iff]
    intro hid
    rcases List.mem_pair.1 hid with hid | hid
    · exact absurd (hid.symm.trans_lt hlt) (Nat.lt_irrefl m.nextRow)
    · exact absurd (hid.symm.trans_lt hlt) (Nat.not_lt.2 (Nat.le_succ m.nextRow))
  have hnew : ∀ r ∈ [(upperDraft t u.x u.z j.upper).toRow m.nextRow,
      (lowerDraft t' u.s u.z j.lower).toRow (m.nextRow + 1)],
      (u.moved m.nextRow).switches.contains r.id = true := by
    intro r hr
    rw [List.contains_iff_mem]
    rcases List.mem_pair.1 hr with rfl | rfl
    · exact List.mem_cons_self
    · exact List.mem_cons_of_mem _ List.mem_cons_self
  unfold Model.contents
  rw [swap_rows, List.filter_append, hold, List.nil_append, List.filter_eq_self.2 hnew]
  rfl

/-- Rows with old numbers other than those of the neuron say what they did. -/
theorem contents_swap_other {ids : List RowId} (hids : ∀ id ∈ ids, id < m.nextRow)
    (hdisj : List.Disjoint ids u.switches) : (m.swap u t t' j).contents ids = m.contents ids := by
  have hnew : [(upperDraft t u.x u.z j.upper).toRow m.nextRow,
      (lowerDraft t' u.s u.z j.lower).toRow (m.nextRow + 1)].filter (fun r => ids.contains r.id) = [] := by
    refine List.filter_eq_nil_iff.2 fun r hr => ?_
    rw [List.contains_eq_mem, decide_eq_true_iff]
    intro hid
    rcases List.mem_pair.1 hr with rfl | rfl
    · exact absurd (hids _ hid) (Nat.lt_irrefl m.nextRow)
    · exact absurd (hids _ hid) (Nat.not_lt.2 (Nat.le_succ m.nextRow))
  have hold : (m.removeRows u.switches).rows.filter (fun r => ids.contains r.id) =
      m.rows.filter fun r => ids.contains r.id := by
    show (m.rows.filter fun r => !u.switches.contains r.id).filter _ = _
    rw [List.filter_filter]
    refine List.filter_congr fun r _ => ?_
    cases hid : ids.contains r.id with
    | false => rfl
    | true =>
      have hmem : r.id ∉ u.switches := hdisj (List.contains_iff_mem.1 hid)
      rw [Bool.true_and, Bool.not_eq_true', List.contains_eq_mem, decide_eq_false_iff_not]
      exact hmem
  unfold Model.contents
  rw [swap_rows, List.filter_append, hnew, hold, List.append_nil]

end Swap

theorem mem_switches {us : List HiddenUnit} {id : RowId} :
    id ∈ us.flatMap HiddenUnit.switches ↔ ∃ u ∈ us, id ∈ u.switches := List.mem_flatMap

/-- The rows without a binary variable are the same before and after an exchange. -/
theorem removeRows_switches_swap [Scalar α] {m : Model α} {b : Body} {k i : Nat} {us : List HiddenUnit}
    {u : HiddenUnit} (hm : m.WellFormed) (hk : b.hidden[k]? = some us) (hi : us[i]? = some u)
    (t t' : String) (j : Interval α) :
    ((m.swap u t t' j).removeRows (b.withUnit k i (u.moved m.nextRow)).switches).rows =
      (m.removeRows b.switches).rows := by
  obtain ⟨before, after, hb, hb'⟩ := flatten_modify (u.moved m.nextRow) hk hi
  have hold : b.switches = (before ++ u :: after).flatMap HiddenUnit.switches := by
    unfold Body.switches
    rw [hb]
  have hswitches : (b.withUnit k i (u.moved m.nextRow)).switches =
      (before ++ u.moved m.nextRow :: after).flatMap HiddenUnit.switches := by
    unfold Body.switches
    rw [← hb']
    rfl
  rw [hswitches, hold]
  have hnew : [(upperDraft t u.x u.z j.upper).toRow m.nextRow,
      (lowerDraft t' u.s u.z j.lower).toRow (m.nextRow + 1)].filter
      (fun r => !((before ++ u.moved m.nextRow :: after).flatMap HiddenUnit.switches).contains r.id) =
        [] := by
    refine filter_gone fun r hr => ?_
    rw [mem_switches]
    refine ⟨u.moved m.nextRow, List.mem_append_right _ List.mem_cons_self, ?_⟩
    rcases List.mem_pair.1 hr with rfl | rfl
    · exact List.mem_cons_self
    · exact List.mem_cons_of_mem _ List.mem_cons_self
  show (m.swap u t t' j).rows.filter _ = m.rows.filter _
  rw [swap_rows, List.filter_append, hnew, List.append_nil]
  show (m.rows.filter fun r => !u.switches.contains r.id).filter _ = _
  rw [List.filter_filter]
  -- a row with an old number is none of the two new ones
  refine List.filter_congr fun r hr => ?_
  have hlt := hm.rows_lt r hr
  have hmoved : r.id ∉ (u.moved m.nextRow).switches := by
    intro hid
    rcases List.mem_pair.1 hid with hid | hid
    · exact absurd (hid.symm.trans_lt hlt) (Nat.lt_irrefl m.nextRow)
    · exact absurd (hid.symm.trans_lt hlt) (Nat.not_lt.2 (Nat.le_succ m.nextRow))
  rw [List.contains_eq_mem, List.contains_eq_mem, List.contains_eq_mem, ← decide_not, ← decide_not,
    ← decide_not, ← Bool.decide_and, decide_eq_decide]
  rw [List.flatMap_append, List.flatMap_append, List.flatMap_cons, List.flatMap_cons]
  simp only [List.mem_append, not_or]
  constructor
  · rintro ⟨⟨hbefore, -, hafter⟩, hu⟩
    exact ⟨hbefore, hu, hafter⟩
  · rintro ⟨hbefore, hu, hafter⟩
    exact ⟨⟨hbefore, hmoved, hafter⟩, hu⟩

/-! ### Places -/

section Places

variable {β γ : Type} {bss css : List (List β)} {c c' : β} {k i : Nat} {p : Nat × Nat}

/-- The item at a place of a list of lists. -/
def at? (bss : List (List β)) (p : Nat × Nat) : Option β := (bss[p.1]?).bind fun bs => bs[p.2]?

theorem at?_eq_some {b : β} : at? bss p = some b ↔ ∃ bs, bss[p.1]? = some bs ∧ bs[p.2]? = some b :=
  Option.bind_eq_some_iff

theorem exists_at? {n : Nat} (hk : (bss.map List.length)[p.1]? = some n) (hi : p.2 < n) :
    ∃ b, at? bss p = some b := by
  rw [List.getElem?_map, Option.map_eq_some_iff] at hk
  obtain ⟨bs, hbs, rfl⟩ := hk
  exact ⟨_, at?_eq_some.2 ⟨bs, hbs, List.getElem?_eq_getElem hi⟩⟩

theorem mem_flatten_of_at? {b : β} (h : at? bss p = some b) : b ∈ bss.flatten := by
  obtain ⟨bs, hk, hi⟩ := at?_eq_some.1 h
  exact List.mem_flatten.2 ⟨bs, List.mem_of_getElem? hk, List.mem_of_getElem? hi⟩

/-- Where no item occurs twice, an item is at one place. -/
theorem at?_inj {b : β} {q : Nat × Nat} (h : bss.flatten.Nodup) (hp : at? bss p = some b)
    (hq : at? bss q = some b) : p = q := by
  obtain ⟨hrows, hpair⟩ := List.nodup_flatten.1 h
  obtain ⟨bs, hk, hi⟩ := at?_eq_some.1 hp
  obtain ⟨cs, hk', hi'⟩ := at?_eq_some.1 hq
  have hfirst : p.1 = q.1 := by
    by_contra hne
    obtain ⟨hlt, rfl⟩ := List.getElem?_eq_some_iff.1 hk
    obtain ⟨hlt', rfl⟩ := List.getElem?_eq_some_iff.1 hk'
    have hmem := List.mem_of_getElem? hi
    have hmem' := List.mem_of_getElem? hi'
    rcases Nat.lt_or_gt_of_ne hne with hlt₁ | hlt₁
    · exact List.pairwise_iff_getElem.1 hpair p.1 q.1 hlt hlt' hlt₁ hmem hmem'
    · exact List.pairwise_iff_getElem.1 hpair q.1 p.1 hlt' hlt hlt₁ hmem' hmem
  rw [hfirst, hk'] at hk
  cases hk
  have hsecond : p.2 = q.2 :=
    (List.getElem?_inj (List.getElem?_eq_some_iff.1 hi).1 (hrows _ (List.mem_of_getElem? hk'))).1
      (hi.trans hi'.symm)
  exact Prod.ext hfirst hsecond

theorem at?_set_self (h : at? bss (k, i) = some c) :
    at? (bss.modify k fun bs => bs.set i c') (k, i) = some c' := by
  obtain ⟨bs, hk, hi⟩ := at?_eq_some.1 h
  refine at?_eq_some.2 ⟨bs.set i c', ?_, ?_⟩
  · show (bss.modify k fun bs => bs.set i c')[k]? = _
    have hk : bss[k]? = some bs := hk
    rw [List.getElem?_modify_eq, hk]
    rfl
  · show (bs.set i c')[i]? = _
    rw [List.getElem?_set_self (List.getElem?_eq_some_iff.1 hi).1]

theorem at?_set_of_ne (h : p ≠ (k, i)) : at? (bss.modify k fun bs => bs.set i c') p = at? bss p := by
  obtain ⟨k', i'⟩ := p
  unfold at?
  dsimp only
  by_cases hk : k = k'
  · subst hk
    have hi : i ≠ i' := fun hi => h (by rw [hi])
    rw [List.getElem?_modify_eq]
    cases bss[k]? with
    | none => rfl
    | some bs => exact List.getElem?_set_ne hi
  · rw [List.getElem?_modify_ne _ _ hk]

theorem map_length_set (bss : List (List β)) (k i : Nat) (c' : β) :
    (bss.modify k fun bs => bs.set i c').map List.length = bss.map List.length := by
  induction bss generalizing k with
  | nil => rw [List.modify_nil]
  | cons bs bss ih =>
    cases k with
    | zero => rw [List.modify_zero_cons, List.map_cons, List.map_cons, List.length_set]
    | succ k => rw [List.modify_succ_cons, List.map_cons, List.map_cons, ih]

/-- Lists of lists of one shape have lists as long at every position. -/
theorem width_congr (hlen : bss.map List.length = css.map List.length) (k : Nat) :
    ((bss[k]?).getD []).length = ((css[k]?).getD []).length := by
  have hwidth : ∀ dss : List (List β), ((dss[k]?).getD []).length = ((dss.map List.length)[k]?).getD 0 := by
    intro dss
    rw [List.getElem?_map]
    exact (Option.getD_map List.length [] dss[k]?).symm
  rw [hwidth, hwidth, hlen]

/-- Lists of lists of one shape with the same item at every place are the same. -/
theorem eq_of_at? (hlen : bss.map List.length = css.map List.length)
    (h : ∀ p, at? bss p = at? css p) : bss = css := by
  induction bss generalizing css with
  | nil =>
    rw [List.map_nil, eq_comm, List.map_eq_nil_iff] at hlen
    exact hlen.symm
  | cons bs bss ih =>
    cases css with
    | nil => cases hlen
    | cons cs css =>
      have hhead : bs = cs := List.ext_getElem? fun i => h (0, i)
      rw [hhead, ih (List.cons.inj hlen).2 fun p => h (p.1 + 1, p.2)]

theorem at?_map (f : β → γ) (bss : List (List β)) (p : Nat × Nat) :
    at? (bss.map (·.map f)) p = (at? bss p).map f := by
  unfold at?
  rw [List.getElem?_map]
  cases bss[p.1]? with
  | none => rfl
  | some bs => exact List.getElem?_map

end Places

end ReluMilp
