import Mathlib.Algebra.Order.Ring.Rat
import ReluMilp.Proofs.Grammar

/-!
# Affine maps with a row per input

A matrix with a row per input stands to the right of a vector: `v K + b`. Its transpose has a row per output.

* `Tensor.after`, `Tensor.affine` — a vector times a matrix, and with a vector added;
* `transpose_matrix`, `shape_transpose`, `rows_transpose` — the rows of a transpose are the columns;
* `Step.transposed`, `maps_transposed`, `apply_transposed` — the affine step of a matrix with a row per
  input, between which widths it maps, and what it computes;
* `Tensor.signed`, `Tensor.summed` — the matrices of the absolute value.
-/

namespace ReluMilp

open Scalar

/-! ### Transposes -/

section Transpose

variable {α : Type} {t : Tensor α} {m n : Nat}

/-- The transpose of a matrix has its columns as rows. -/
theorem transpose_matrix (h : t.shape = [m, n]) :
    t.transpose.shape = [n, m] ∧ t.transpose.rows = Tensor.columns n t.rows := by
  unfold Tensor.transpose
  split
  · rename_i h'
    rw [h] at h'
    cases h'
    exact ⟨rfl, Tensor.rows_ofRows _ _ _ _ _⟩
  · rename_i hnot
    exact absurd h (hnot m n)

/-- Only a matrix has a transpose that is one. -/
theorem shape_transpose : t.transpose.shape = [n, m] ↔ t.shape = [m, n] := by
  refine ⟨fun h => ?_, fun h => (transpose_matrix h).1⟩
  by_cases hmatrix : ∃ m' n', t.shape = [m', n']
  · obtain ⟨m', n', hshape⟩ := hmatrix
    rw [(transpose_matrix hshape).1] at h
    cases h
    exact hshape
  · have hsame : t.transpose = t := by
      unfold Tensor.transpose
      split
      · rename_i m' n' hshape
        exact absurd ⟨m', n', hshape⟩ hmatrix
      · rfl
    rw [hsame] at h
    exact absurd ⟨n, m, h⟩ hmatrix

/-- The rows of a transpose hold the entries at one place of all rows. -/
theorem rows_transpose [Zero α] (h : t.shape = [m, n]) :
    t.transpose.rows = (List.range n).map fun j => t.rows.map fun r => r.getD j 0 := by
  have hlast : t.shape.getLast? = some n := by rw [h]; rfl
  rw [(transpose_matrix h).2]
  refine List.map_congr_left fun j hj => ?_
  have hwidth : ∀ r ∈ t.rows, r[j]? = (some ∘ fun r => r.getD j 0) r := by
    intro r hr
    have hlt : j < r.length := by
      rw [Tensor.length_of_mem_rows hlast r hr]
      exact List.mem_range.1 hj
    show _ = some (r.getD j 0)
    rw [List.getD_eq_getElem?_getD, List.getElem?_eq_getElem hlt, Option.getD_some]
  rw [List.filterMap_congr hwidth, List.filterMap_eq_map]

end Transpose

/-! ### A vector times a matrix -/

/-- The vector `v K`: entry `j` is the sum of the products of the entries of `v` and of column `j`. -/
def Tensor.after (k : Tensor Rat) (v : List Rat) : List Rat :=
  (List.range (k.shape.getLast?.getD 0)).map fun j => dot v (k.rows.map fun r => r.getD j 0)

/-- The vector `v K + b`. -/
def Tensor.affine (k : Tensor Rat) (b : Tensor Rat) (v : List Rat) : List Rat :=
  List.zipWith (· + ·) (k.after v) b.entries

theorem dot_comm (ws vs : List Rat) : dot ws vs = dot vs ws := by
  unfold dot
  rw [List.zipWith_comm]
  simp only [mul_comm]

/-- The step of a matrix with a row per input and of a bias. -/
def Step.transposed {α : Type} (k b : Tensor α) : Step α := .affine k.transpose (some b)

/-- The matrix has a row per input, and the bias an entry for each of its columns. -/
theorem maps_transposed {α : Type} {k b : Tensor α} {n m : Nat} :
    (Step.transposed k b).Maps n m ↔ k.shape = [n, m] ∧ b.entries.length = m := by
  constructor
  · rintro ⟨_, _, heq, hshape, hb⟩
    cases heq
    exact ⟨shape_transpose.1 hshape, hb b rfl⟩
  · rintro ⟨hshape, hb⟩
    refine ⟨_, _, rfl, shape_transpose.2 hshape, ?_⟩
    rintro _ ⟨⟩
    exact hb

/-- The step computes `v K + b`. -/
theorem apply_transposed {k : Tensor Rat} {n m : Nat} (h : k.shape = [n, m]) (b : Tensor Rat) (v : List Rat) :
    (Step.transposed k b).apply v = k.affine b v := by
  have hafter : k.after v = k.transpose.rows.map fun r => dot r v := by
    unfold Tensor.after
    rw [rows_transpose h, h, List.map_map]
    exact List.map_congr_left fun j _ => dot_comm v _
  show List.zipWith (fun r c => dot r v + c) k.transpose.rows b.entries = _
  unfold Tensor.affine
  rw [hafter, List.zipWith_map_left]

/-! ### A small network -/

/-- The first matrix of the absolute value: the number and its negative. -/
def Tensor.signed : Tensor Rat := ⟨[1, 2], [1, -1], by decide⟩

/-- The second matrix of the absolute value: the sum of two numbers. -/
def Tensor.summed : Tensor Rat := ⟨[2, 1], [1, 1], by decide⟩

end ReluMilp
