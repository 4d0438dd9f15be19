import ReluMilp.Formulation.Basic
import Mathlib.Algebra.Order.Ring.Rat
import Mathlib.Order.MinMax
import Mathlib.Tactic.Linarith
import Mathlib.Tactic.Ring

/-!
# Exact values of linear expressions

Over the rationals a model keeps every coefficient, and the order and the merging of terms do not
change a value.

* `larger_eq_max`, `smaller_eq_min`, `positivePart_eq_max`, `relu_eq_max`, `magnitude_eq_abs` — the
  operations of `Scalar` in terms of the order;
* `termsValue_collect`, `termsValue_kept` — collected terms, and those that a row or an objective keeps;
* `termsValue_weightTerms`, `termsValue_negatedTerms` — the weights of a neuron;
* `termsValue_congr` — a value depends on the variables of the terms only.
-/

namespace ReluMilp

open Scalar

/-! ### The operations of exact scalars -/

theorem larger_eq_max (a b : Rat) : larger a b = max a b := by
  rw [larger_rat, max_def]

theorem smaller_eq_min (a b : Rat) : smaller a b = min a b := by
  rw [smaller_rat, min_def]

theorem relu_eq_max (a : Rat) : relu a = max a 0 := larger_eq_max a 0

theorem map_relu (v : List Rat) : v.map relu = v.map fun x => max x 0 :=
  List.map_congr_left fun x _ => relu_eq_max x

theorem positivePart_eq_max (a : Rat) : positivePart a = max 0 a := by
  rw [positivePart_rat]
  by_cases h : 0 < a
  · rw [if_pos h, max_eq_right h.le]
  · rw [if_neg h, max_eq_left (not_lt.1 h)]

theorem magnitude_eq_abs (a : Rat) : magnitude a = |a| := larger_eq_max a (-a)

theorem isFinite_rat (a : Rat) : isFinite a = true := rfl

theorem negligible_rat (a : Rat) : negligible a = decide (a = 0) := rfl

theorem isZero_rat (a : Rat) : isZero a = decide (a = 0) := by
  show decide (some a = some 0) = decide (a = 0)
  simp only [Option.some.injEq]

/-! ### Sums of terms -/

theorem termsValue_insertTerm (x : Assignment Rat) (t : Term Rat) (us : List (Term Rat)) :
    termsValue x (insertTerm t us) = t.coefficient * x t.var + termsValue x us := by
  induction us with
  | nil => rfl
  | cons u us ih =>
    rw [insertTerm]
    by_cases h : t.var = u.var
    · rw [if_pos h, termsValue_cons, termsValue_cons, h]
      ring
    · rw [if_neg h]
      by_cases hlt : t.var < u.var
      · rw [if_pos hlt, termsValue_cons]
      · rw [if_neg hlt, termsValue_cons, termsValue_cons, ih]
        ring

theorem termsValue_foldl_insertTerm (x : Assignment Rat) (ts us : List (Term Rat)) :
    termsValue x (ts.foldl (fun us t => insertTerm t us) us) = termsValue x us + termsValue x ts := by
  induction ts generalizing us with
  | nil => simp only [List.foldl_nil, termsValue_nil, add_zero]
  | cons t ts ih =>
    rw [List.foldl_cons, ih, termsValue_insertTerm, termsValue_cons]
    ring

theorem termsValue_collect (x : Assignment Rat) (ts : List (Term Rat)) :
    termsValue x (collect ts) = termsValue x ts := by
  rw [collect, termsValue_foldl_insertTerm, termsValue_nil, zero_add]

/-- Terms that are dropped because their coefficient is zero do not count. -/
theorem termsValue_kept (x : Assignment Rat) (keep : Rat → Bool) (h : ∀ c, keep c = false → c = 0)
    (ts : List (Term Rat)) :
    termsValue x (ts.filter fun t => keep t.coefficient) = termsValue x ts := by
  induction ts with
  | nil => rfl
  | cons t ts ih =>
    cases hk : keep t.coefficient with
    | true => rw [List.filter_cons_of_pos (by exact hk), termsValue_cons, termsValue_cons, ih]
    | false =>
      rw [List.filter_cons_of_neg (by simp [hk]), termsValue_cons, ih, h _ hk, zero_mul, zero_add]

theorem termsValue_weightTerms (x : Assignment Rat) (ws : List Rat) (vars : List VarId) :
    termsValue x (weightTerms ws vars) = dot ws (vars.map x) := by
  unfold weightTerms
  induction ws generalizing vars with
  | nil => rfl
  | cons w ws ih =>
    cases vars with
    | nil => rfl
    | cons v vars =>
      rw [List.zipWith_cons_cons, termsValue_cons, ih, List.map_cons, dot_cons_cons]

theorem dot_neg (ws vs : List Rat) : dot (ws.map (- ·)) vs = -dot ws vs := by
  induction ws generalizing vs with
  | nil => rfl
  | cons w ws ih =>
    cases vs with
    | nil => rfl
    | cons v vs =>
      rw [List.map_cons, dot_cons_cons, dot_cons_cons, ih]
      ring

theorem termsValue_negatedTerms (x : Assignment Rat) (n : Neuron Rat) (prev : List VarId) :
    termsValue x (negatedTerms n prev) = -dot n.weights (prev.map x) := by
  rw [negatedTerms, termsValue_weightTerms, dot_neg]

theorem termsValue_congr {x y : Assignment Rat} {ts : List (Term Rat)}
    (h : ∀ t ∈ ts, x t.var = y t.var) : termsValue x ts = termsValue y ts := by
  induction ts with
  | nil => rfl
  | cons t ts ih =>
    rw [termsValue_cons, termsValue_cons, h t List.mem_cons_self,
      ih fun u hu => h u (List.mem_cons_of_mem t hu)]

/-! ### The variables of collected terms -/

variable {α : Type} [Scalar α]

theorem mem_insertTerm {t u : Term α} {us : List (Term α)} (h : u ∈ insertTerm t us) :
    u.var = t.var ∨ ∃ v ∈ us, v.var = u.var := by
  induction us with
  | nil =>
    rw [insertTerm, List.mem_singleton] at h
    exact .inl (h ▸ rfl)
  | cons v us ih =>
    rw [insertTerm] at h
    split at h
    · rcases List.mem_cons.1 h with rfl | h
      · exact .inr ⟨v, List.mem_cons_self, rfl⟩
      · exact .inr ⟨u, List.mem_cons_of_mem _ h, rfl⟩
    · split at h
      · rcases List.mem_cons.1 h with rfl | h
        · exact .inl rfl
        · exact .inr ⟨u, h, rfl⟩
      · rcases List.mem_cons.1 h with rfl | h
        · exact .inr ⟨u, List.mem_cons_self, rfl⟩
        · rcases ih h with h | ⟨w, hw, hwu⟩
          · exact .inl h
          · exact .inr ⟨w, List.mem_cons_of_mem _ hw, hwu⟩

theorem mem_foldl_insertTerm {u : Term α} {ts us : List (Term α)}
    (h : u ∈ ts.foldl (fun us t => insertTerm t us) us) :
    (∃ v ∈ us, v.var = u.var) ∨ ∃ v ∈ ts, v.var = u.var := by
  induction ts generalizing us with
  | nil => exact .inl ⟨u, h, rfl⟩
  | cons t ts ih =>
    rcases ih h with ⟨v, hv, hvu⟩ | ⟨v, hv, hvu⟩
    · rcases mem_insertTerm hv with hvt | ⟨w, hw, hwv⟩
      · exact .inr ⟨t, List.mem_cons_self, hvt.symm.trans hvu⟩
      · exact .inl ⟨w, hw, hwv.trans hvu⟩
    · exact .inr ⟨v, List.mem_cons_of_mem _ hv, hvu⟩

/-- Collecting adds no variable. -/
theorem mem_collect {u : Term α} {ts : List (Term α)} (h : u ∈ collect ts) :
    ∃ v ∈ ts, v.var = u.var := by
  rcases mem_foldl_insertTerm h with ⟨v, hv, _⟩ | hv
  · exact absurd hv List.not_mem_nil
  · exact hv

theorem mem_weightTerms {β : Type} {ws : List β} {vars : List VarId} {t : Term β}
    (h : t ∈ weightTerms ws vars) : t.var ∈ vars := by
  unfold weightTerms at h
  obtain ⟨w, v, hmem, rfl⟩ : ∃ w v, (w, v) ∈ ws.zip vars ∧ Term.mk w v = t := by
    rw [← List.map_uncurry_zip_eq_zipWith] at h
    obtain ⟨⟨w, v⟩, hwv, rfl⟩ := List.mem_map.1 h
    exact ⟨w, v, hwv, rfl⟩
  exact (List.of_mem_zip hmem).2

theorem mem_negatedTerms {n : Neuron α} {prev : List VarId} {t : Term α}
    (h : t ∈ negatedTerms n prev) : t.var ∈ prev := mem_weightTerms h

end ReluMilp
