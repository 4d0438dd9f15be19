import Mathlib.Data.Finset.Max
import Mathlib.Order.Bounds.Basic
import Mathlib.Tactic.FieldSimp
import ReluMilp.Proofs.Linear

/-!
# Eliminating a variable from linear inequalities

A set of numbers that linear inequalities over rational variables leave for one expression has a largest
number, if it is bounded and not empty.

* `Linear.slope`, `Linear.without`, `Linear.scale`, `Linear.add` — the parts of an expression, and
  combinations;
* `eliminate`, `mem_eliminate`, `holds_eliminate` — inequalities without a variable that hold exactly where
  the given ones do for some value of it (Fourier and Motzkin);
* `Polyhedral` — a property of assignments that is one of finitely many systems of inequalities; it is
  kept by `and`, `or`, `forall_mem`, `project` and `exists_off`;
* `exists_largest` — a polyhedral property of one variable has a largest value.
-/

namespace ReluMilp

/-! ### Linear expressions -/

namespace Linear

/-- The coefficient of a variable. -/
def slope (v : VarId) (e : Linear Rat) : Rat := ((e.terms.filter (·.var = v)).map (·.coefficient)).sum

/-- An expression without the terms of a variable. -/
def without (v : VarId) (e : Linear Rat) : Linear Rat := ⟨e.terms.filter (·.var ≠ v), e.constant⟩

/-- A multiple. -/
def scale (c : Rat) (e : Linear Rat) : Linear Rat :=
  ⟨e.terms.map fun t => ⟨c * t.coefficient, t.var⟩, c * e.constant⟩

/-- A sum. -/
def add (e f : Linear Rat) : Linear Rat := ⟨e.terms ++ f.terms, e.constant + f.constant⟩

/-- The sum of all coefficients. -/
def weight (e : Linear Rat) : Rat := (e.terms.map (·.coefficient)).sum

variable (e f : Linear Rat) (x : Assignment Rat)

theorem value_scale (c : Rat) : (e.scale c).value x = c * e.value x := by
  have hterms : ∀ ts : List (Term Rat),
      termsValue x (ts.map fun t => ⟨c * t.coefficient, t.var⟩) = c * termsValue x ts := by
    intro ts
    induction ts with
    | nil => rw [List.map_nil, termsValue_nil, mul_zero]
    | cons t ts ih =>
      rw [List.map_cons, termsValue_cons, termsValue_cons, ih]
      ring
  show termsValue x (e.terms.map fun t => ⟨c * t.coefficient, t.var⟩) + c * e.constant =
    c * (termsValue x e.terms + e.constant)
  rw [hterms, mul_add]

theorem value_add : (e.add f).value x = e.value x + f.value x := by
  have hterms : ∀ ts us : List (Term Rat),
      termsValue x (ts ++ us) = termsValue x ts + termsValue x us := by
    intro ts us
    induction ts with
    | nil => rw [List.nil_append, termsValue_nil, zero_add]
    | cons t ts ih => rw [List.cons_append, termsValue_cons, termsValue_cons, ih, add_assoc]
  show termsValue x (e.terms ++ f.terms) + (e.constant + f.constant) =
    termsValue x e.terms + e.constant + (termsValue x f.terms + f.constant)
  rw [hterms]
  ring

/-- An expression is linear in every variable. -/
theorem value_eq (v : VarId) : e.value x = e.slope v * x v + (e.without v).value x := by
  have hterms : ∀ ts : List (Term Rat), termsValue x ts =
      ((ts.filter (·.var = v)).map (·.coefficient)).sum * x v + termsValue x (ts.filter (·.var ≠ v)) := by
    intro ts
    induction ts with
    | nil => rw [List.filter_nil, List.filter_nil, List.map_nil, List.sum_nil, zero_mul, zero_add]
    | cons t ts ih =>
      rw [termsValue_cons, ih]
      by_cases h : t.var = v
      · rw [List.filter_cons_of_pos (by simpa using h), List.filter_cons_of_neg (by simpa using h),
          List.map_cons, List.sum_cons, h]
        ring
      · rw [List.filter_cons_of_neg (by simpa using h), List.filter_cons_of_pos (by simpa using h),
          termsValue_cons]
        ring
  show termsValue x e.terms + e.constant =
    e.slope v * x v + (termsValue x (e.terms.filter (·.var ≠ v)) + e.constant)
  rw [hterms e.terms, add_assoc]
  rfl

/-- A variable that is left out does not matter. -/
theorem value_without_congr {x y : Assignment Rat} {v : VarId} (h : ∀ id ≠ v, x id = y id) :
    (e.without v).value x = (e.without v).value y := by
  show termsValue x (e.terms.filter (·.var ≠ v)) + e.constant =
    termsValue y (e.terms.filter (·.var ≠ v)) + e.constant
  rw [termsValue_congr fun t ht => h t.var (of_decide_eq_true (List.mem_filter.1 ht).2)]

theorem value_update (v : VarId) (a : Rat) :
    e.value (Function.update x v a) = e.slope v * a + (e.without v).value x := by
  rw [e.value_eq _ v, Function.update_self]
  rw [e.value_without_congr fun id hid => Function.update_of_ne hid a x]

/-- The value where all variables are equal. -/
theorem value_const (t : Rat) : e.value (fun _ => t) = e.weight * t + e.constant := by
  have hterms : ∀ ts : List (Term Rat),
      termsValue (fun _ => t) ts = (ts.map (·.coefficient)).sum * t := by
    intro ts
    induction ts with
    | nil => rw [termsValue_nil, List.map_nil, List.sum_nil, zero_mul]
    | cons u ts ih => rw [termsValue_cons, ih, List.map_cons, List.sum_cons, add_mul]
  show termsValue _ e.terms + e.constant = _
  rw [hterms]
  rfl

end Linear

/-! ### Elimination -/

/-- The pairs of inequalities that bound a variable from above and from below, combined so that it
cancels. -/
def eliminatePair (v : VarId) (p q : Linear Rat) : Linear Rat :=
  ((p.without v).scale (-q.slope v)).add ((q.without v).scale (p.slope v))

/-- Inequalities `e ≤ 0` without a variable: those that do not speak of it, and all pairs of one that bounds
it from above and one that bounds it from below. -/
def eliminate (v : VarId) (es : List (Linear Rat)) : List (Linear Rat) :=
  (es.filter (·.slope v = 0)).map (·.without v) ++
    (es.filter (0 < ·.slope v)).flatMap fun p => (es.filter (·.slope v < 0)).map (eliminatePair v p)

/-- A number between finitely many lower and finitely many upper bounds. -/
theorem exists_between_lists {ls us : List Rat} (h : ∀ l ∈ ls, ∀ u ∈ us, l ≤ u) :
    ∃ a, (∀ l ∈ ls, l ≤ a) ∧ ∀ u ∈ us, a ≤ u := by
  by_cases hls : ls.toFinset.Nonempty
  · obtain ⟨a, ha, hmax⟩ := ls.toFinset.exists_max_image id hls
    rw [List.mem_toFinset] at ha
    exact ⟨a, fun l hl => hmax l (List.mem_toFinset.2 hl), h a ha⟩
  · have hnone : ∀ l, l ∉ ls := fun l hl => hls ⟨l, List.mem_toFinset.2 hl⟩
    by_cases hus : us.toFinset.Nonempty
    · obtain ⟨a, -, hmin⟩ := us.toFinset.exists_min_image id hus
      exact ⟨a, fun l hl => absurd hl (hnone l), fun u hu => hmin u (List.mem_toFinset.2 hu)⟩
    · exact ⟨0, fun l hl => absurd hl (hnone l), fun u hu => absurd ⟨u, List.mem_toFinset.2 hu⟩ hus⟩

/-- What a combination of two inequalities says. -/
theorem value_eliminatePair (v : VarId) (p q : Linear Rat) (x : Assignment Rat) :
    (eliminatePair v p q).value x =
      -q.slope v * (p.without v).value x + p.slope v * (q.without v).value x := by
  rw [eliminatePair, Linear.value_add, Linear.value_scale, Linear.value_scale]

theorem mem_eliminate {v : VarId} {es : List (Linear Rat)} {e : Linear Rat} :
    e ∈ eliminate v es ↔ (∃ f ∈ es, f.slope v = 0 ∧ f.without v = e) ∨
      ∃ p ∈ es, 0 < p.slope v ∧ ∃ q ∈ es, q.slope v < 0 ∧ eliminatePair v p q = e := by
  unfold eliminate
  simp only [List.mem_append, List.mem_map, List.mem_flatMap, List.mem_filter, decide_eq_true_eq, and_assoc]

section Eliminate

variable {v : VarId} {es : List (Linear Rat)} {x : Assignment Rat}

/-- A value that suits all inequalities suits what is left of them. -/
theorem eliminate_nonpos {a : Rat} (ha : ∀ e ∈ es, e.slope v * a + (e.without v).value x ≤ 0) :
    ∀ e ∈ eliminate v es, e.value x ≤ 0 := by
  intro e he
  rcases mem_eliminate.1 he with ⟨f, hf, hs, rfl⟩ | ⟨p, hp, hps, q, hq, hqs, rfl⟩
  · have hle := ha f hf
    rw [hs, zero_mul, zero_add] at hle
    exact hle
  · have hp' := mul_nonpos_of_nonneg_of_nonpos (neg_pos.2 hqs).le (ha p hp)
    have hq' := mul_nonpos_of_nonneg_of_nonpos hps.le (ha q hq)
    rw [value_eliminatePair]
    calc -q.slope v * (p.without v).value x + p.slope v * (q.without v).value x
        = -q.slope v * (p.slope v * a + (p.without v).value x) +
          p.slope v * (q.slope v * a + (q.without v).value x) := by ring
      _ ≤ 0 := add_nonpos hp' hq'

/-- The bounds from below are none above those from above. -/
theorem bounds_sorted (h : ∀ e ∈ eliminate v es, e.value x ≤ 0) :
    ∀ l ∈ (es.filter (·.slope v < 0)).map fun q => (q.without v).value x / -q.slope v,
      ∀ u ∈ (es.filter (0 < ·.slope v)).map fun p => -(p.without v).value x / p.slope v, l ≤ u := by
  rw [List.forall_mem_map]
  intro q hq
  rw [List.forall_mem_map]
  intro p hp
  obtain ⟨hq, hqs⟩ := List.mem_filter.1 hq
  obtain ⟨hp, hps⟩ := List.mem_filter.1 hp
  have hqs' := of_decide_eq_true hqs
  have hps' := of_decide_eq_true hps
  have hle := h _ (mem_eliminate.2 (.inr ⟨p, hp, hps', q, hq, hqs', rfl⟩))
  rw [value_eliminatePair] at hle
  rw [div_le_div_iff₀ (neg_pos.2 hqs') hps']
  linarith

/-- What is left without a variable holds exactly where some value of it suits all inequalities. -/
theorem holds_eliminate :
    (∀ e ∈ eliminate v es, e.value x ≤ 0) ↔ ∃ a, ∀ e ∈ es, e.value (Function.update x v a) ≤ 0 := by
  simp only [Linear.value_update]
  constructor
  · intro h
    obtain ⟨a, hlower, hupper⟩ := exists_between_lists (bounds_sorted h)
    refine ⟨a, fun e he => ?_⟩
    rcases lt_trichotomy (e.slope v) 0 with hs | hs | hs
    · have hbound := hlower _ (List.mem_map_of_mem (List.mem_filter.2 ⟨he, decide_eq_true hs⟩))
      rw [div_le_iff₀ (neg_pos.2 hs)] at hbound
      linarith
    · rw [hs, zero_mul, zero_add]
      exact h _ (mem_eliminate.2 (.inl ⟨e, he, hs, rfl⟩))
    · have hbound := hupper _ (List.mem_map_of_mem (List.mem_filter.2 ⟨he, decide_eq_true hs⟩))
      rw [le_div_iff₀ hs] at hbound
      linarith
  · rintro ⟨a, ha⟩
    exact eliminate_nonpos ha

end Eliminate

/-! ### Polyhedral properties -/

/-- A property of assignments that is one of finitely many systems of linear inequalities. -/
def Polyhedral (P : Assignment Rat → Prop) : Prop :=
  ∃ systems : List (List (Linear Rat)), ∀ x, P x ↔ ∃ es ∈ systems, ∀ e ∈ es, e.value x ≤ 0

namespace Polyhedral

variable {P Q : Assignment Rat → Prop}

theorem congr (h : Polyhedral P) (hPQ : ∀ x, P x ↔ Q x) : Polyhedral Q := by
  obtain ⟨systems, hs⟩ := h
  exact ⟨systems, fun x => (hPQ x).symm.trans (hs x)⟩

theorem of_true (h : ∀ x, P x) : Polyhedral P :=
  ⟨[[]], fun x => ⟨fun _ => ⟨[], List.mem_cons_self, fun _ he => absurd he List.not_mem_nil⟩,
    fun _ => h x⟩⟩

theorem of_false (h : ∀ x, ¬P x) : Polyhedral P :=
  ⟨[], fun x => ⟨fun hx => absurd hx (h x), fun ⟨_, hes, _⟩ => absurd hes List.not_mem_nil⟩⟩

theorem nonpos (e : Linear Rat) : Polyhedral fun x => e.value x ≤ 0 := by
  refine ⟨[[e]], fun x => ?_⟩
  simp only [List.mem_singleton, exists_eq_left, forall_eq]

theorem or (hP : Polyhedral P) (hQ : Polyhedral Q) : Polyhedral fun x => P x ∨ Q x := by
  obtain ⟨s, hs⟩ := hP
  obtain ⟨t, ht⟩ := hQ
  refine ⟨s ++ t, fun x => ?_⟩
  show P x ∨ Q x ↔ _
  rw [hs, ht]
  constructor
  · rintro (⟨es, hes, h⟩ | ⟨es, hes, h⟩)
    · exact ⟨es, List.mem_append_left _ hes, h⟩
    · exact ⟨es, List.mem_append_right _ hes, h⟩
  · rintro ⟨es, hes, h⟩
    exact (List.mem_append.1 hes).imp (fun hes => ⟨es, hes, h⟩) fun hes => ⟨es, hes, h⟩

theorem and (hP : Polyhedral P) (hQ : Polyhedral Q) : Polyhedral fun x => P x ∧ Q x := by
  obtain ⟨s, hs⟩ := hP
  obtain ⟨t, ht⟩ := hQ
  refine ⟨s.flatMap fun es => t.map (es ++ ·), fun x => ?_⟩
  show P x ∧ Q x ↔ _
  rw [hs, ht]
  constructor
  · rintro ⟨⟨es, hes, h⟩, fs, hfs, h'⟩
    exact ⟨es ++ fs, List.mem_flatMap.2 ⟨es, hes, List.mem_map_of_mem hfs⟩,
      List.forall_mem_append.2 ⟨h, h'⟩⟩
  · rintro ⟨gs, hgs, h⟩
    obtain ⟨es, hes, hgs⟩ := List.mem_flatMap.1 hgs
    obtain ⟨fs, hfs, rfl⟩ := List.mem_map.1 hgs
    obtain ⟨h₁, h₂⟩ := List.forall_mem_append.1 h
    exact ⟨⟨es, hes, h₁⟩, fs, hfs, h₂⟩

theorem forall_mem {β : Type} {R : β → Assignment Rat → Prop} {bs : List β}
    (h : ∀ b ∈ bs, Polyhedral (R b)) : Polyhedral fun x => ∀ b ∈ bs, R b x := by
  induction bs with
  | nil => exact of_true fun _ _ hb => absurd hb List.not_mem_nil
  | cons b bs ih =>
    have hall := (h b List.mem_cons_self).and (ih fun c hc => h c (List.mem_cons_of_mem b hc))
    exact hall.congr fun x => (List.forall_mem_cons (p := fun c => R c x)).symm

theorem le (ts : List (Term Rat)) (b : Rat) : Polyhedral fun x => termsValue x ts ≤ b := by
  refine (nonpos ⟨ts, -b⟩).congr fun x => ?_
  show termsValue x ts + -b ≤ 0 ↔ _
  rw [← sub_eq_add_neg, sub_nonpos]

theorem ge (ts : List (Term Rat)) (b : Rat) : Polyhedral fun x => b ≤ termsValue x ts := by
  refine (nonpos (Linear.scale (-1) ⟨ts, -b⟩)).congr fun x => ?_
  rw [Linear.value_scale]
  show -1 * (termsValue x ts + -b) ≤ 0 ↔ _
  constructor
  · intro h
    linarith
  · intro h
    linarith

theorem eq (ts : List (Term Rat)) (b : Rat) : Polyhedral fun x => termsValue x ts = b :=
  ((le ts b).and (ge ts b)).congr fun _ => le_antisymm_iff.symm

/-- Some value of one variable. -/
theorem project (h : Polyhedral P) (v : VarId) : Polyhedral fun x => ∃ a, P (Function.update x v a) := by
  obtain ⟨systems, hs⟩ := h
  refine ⟨systems.map (eliminate v), fun x => ?_⟩
  constructor
  · rintro ⟨a, ha⟩
    obtain ⟨es, hes, h⟩ := (hs _).1 ha
    exact ⟨eliminate v es, List.mem_map_of_mem hes, holds_eliminate.2 ⟨a, h⟩⟩
  · rintro ⟨_, hfs, h⟩
    obtain ⟨es, hes, rfl⟩ := List.mem_map.1 hfs
    obtain ⟨a, ha⟩ := holds_eliminate.1 h
    exact ⟨a, (hs _).2 ⟨es, hes, ha⟩⟩

/-- Some values of finitely many variables. -/
theorem exists_off (h : Polyhedral P) (vs : List VarId) :
    Polyhedral fun x => ∃ y, (∀ id ∉ vs, y id = x id) ∧ P y := by
  induction vs with
  | nil =>
    refine h.congr fun x => ⟨fun hx => ⟨x, fun _ _ => rfl, hx⟩, fun ⟨y, hy, hPy⟩ => ?_⟩
    rw [← funext fun id => hy id List.not_mem_nil]
    exact hPy
  | cons v vs ih =>
    refine (ih.project v).congr fun x => ?_
    constructor
    · rintro ⟨a, y, hy, hPy⟩
      refine ⟨y, fun id hid => ?_, hPy⟩
      rw [List.mem_cons, not_or] at hid
      rw [hy id hid.2, Function.update_of_ne hid.1]
    · rintro ⟨y, hy, hPy⟩
      refine ⟨y v, y, fun id hid => ?_, hPy⟩
      by_cases hv : id = v
      · rw [hv, Function.update_self]
      · rw [Function.update_of_ne hv]
        exact hy id fun hmem => (List.mem_cons.1 hmem).elim hv hid

end Polyhedral

/-! ### Largest values -/

/-- The numbers that satisfy finitely many linear inequalities have a largest one, if there is one and they
are bounded. -/
theorem exists_largest_of_system {es : List (Linear Rat)} {t₀ b : Rat}
    (h₀ : ∀ e ∈ es, e.value (fun _ => t₀) ≤ 0) (hb : ∀ t, (∀ e ∈ es, e.value (fun _ => t) ≤ 0) → t ≤ b) :
    ∃ t, IsGreatest {t | ∀ e ∈ es, e.value (fun _ => t) ≤ 0} t := by
  simp only [Linear.value_const] at h₀ hb ⊢
  have hsteep : ∀ e ∈ es, ∀ t, 0 < e.weight → (e.weight * t + e.constant ≤ 0 ↔ t ≤ -e.constant / e.weight) := by
    intro e _ t hw
    rw [le_div_iff₀ hw, mul_comm t]
    constructor
    · intro h
      linarith
    · intro h
      linarith
  have hflat : ∀ e ∈ es, ∀ t, t₀ ≤ t → e.weight ≤ 0 → e.weight * t + e.constant ≤ 0 := by
    intro e he t ht hw
    have hmono := mul_le_mul_of_nonpos_left ht hw
    have hle := h₀ e he
    linarith
  -- the largest number is the smallest one at which an inequality becomes an equation
  by_cases hne : ((es.filter (0 < ·.weight)).map fun e => -e.constant / e.weight).toFinset.Nonempty
  · obtain ⟨t, ht, hmin⟩ := Finset.exists_min_image _ id hne
    rw [List.mem_toFinset] at ht
    have hle : ∀ e ∈ es, 0 < e.weight → t ≤ -e.constant / e.weight := fun e he hw =>
      hmin _ (List.mem_toFinset.2 (List.mem_map_of_mem (List.mem_filter.2 ⟨he, decide_eq_true hw⟩)))
    obtain ⟨f, hf, rfl⟩ := List.mem_map.1 ht
    obtain ⟨hf, hw⟩ := List.mem_filter.1 hf
    refine ⟨_, fun e he => ?_, fun s hs => (hsteep f hf s (of_decide_eq_true hw)).1 (hs f hf)⟩
    by_cases hwe : 0 < e.weight
    · exact (hsteep e he _ hwe).2 (hle e he hwe)
    · exact hflat e he _ ((hsteep f hf t₀ (of_decide_eq_true hw)).1 (h₀ f hf)) (not_lt.1 hwe)
  · -- without such an inequality there is no bound
    have hall : ∀ e ∈ es, e.weight ≤ 0 := by
      intro e he
      by_contra hw
      exact hne ⟨_, List.mem_toFinset.2 (List.mem_map_of_mem
        (List.mem_filter.2 ⟨he, decide_eq_true (not_le.1 hw)⟩))⟩
    have hlarge := hb (max t₀ (b + 1)) fun e he => hflat e he _ (le_max_left _ _) (hall e he)
    have hright := le_max_right t₀ (b + 1)
    linarith

/-- A union of finitely many sets has a largest element, if every one that is not empty has. -/
theorem exists_largest_of_list {β : Type} {S : β → Set Rat} {bs : List β}
    (h : ∀ b ∈ bs, (S b).Nonempty → ∃ t, IsGreatest (S b) t) (hne : ∃ b ∈ bs, (S b).Nonempty) :
    ∃ t, IsGreatest {t | ∃ b ∈ bs, t ∈ S b} t := by
  induction bs with
  | nil => exact absurd hne fun ⟨_, hb, _⟩ => absurd hb List.not_mem_nil
  | cons b bs ih =>
    have hunion : {t | ∃ c ∈ b :: bs, t ∈ S c} = S b ∪ {t | ∃ c ∈ bs, t ∈ S c} := by
      ext t
      exact List.exists_mem_cons_iff (fun c => t ∈ S c) b bs
    have hrest := ih fun c hc => h c (List.mem_cons_of_mem b hc)
    rw [hunion]
    by_cases hb : (S b).Nonempty
    · obtain ⟨t, ht⟩ := h b List.mem_cons_self hb
      by_cases hbs : ∃ c ∈ bs, (S c).Nonempty
      · obtain ⟨s, hs⟩ := hrest hbs
        exact ⟨max t s, ht.union hs⟩
      · have hempty : {t | ∃ c ∈ bs, t ∈ S c} = ∅ :=
          Set.eq_empty_iff_forall_notMem.2 fun s ⟨c, hc, hs⟩ => hbs ⟨c, hc, s, hs⟩
        rw [hempty, Set.union_empty]
        exact ⟨t, ht⟩
    · rw [Set.not_nonempty_iff_eq_empty.1 hb, Set.empty_union]
      exact hrest (((List.exists_mem_cons_iff _ b bs).1 hne).resolve_left hb)

/-- The values that a polyhedral property leaves for a variable on its own have a largest one, if there is
one and they are bounded. -/
theorem exists_largest {Q : Rat → Prop} {v : VarId} (h : Polyhedral fun x => Q (x v)) {t₀ b : Rat}
    (h₀ : Q t₀) (hb : ∀ t, Q t → t ≤ b) : ∃ t, IsGreatest {t | Q t} t := by
  obtain ⟨systems, hs⟩ := h
  have hQ : ∀ t, Q t ↔ ∃ es ∈ systems, t ∈ {t | ∀ e ∈ es, e.value (fun _ => t) ≤ 0} :=
    fun t => hs fun _ => t
  simp only [hQ] at h₀ hb ⊢
  refine exists_largest_of_list (fun es hes ⟨t, ht⟩ => ?_) ?_
  · exact exists_largest_of_system ht fun s hs' => hb s ⟨es, hes, hs'⟩
  · obtain ⟨es, hes, ht⟩ := h₀
    exact ⟨es, hes, t₀, ht⟩

end ReluMilp
