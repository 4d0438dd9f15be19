import ReluMilp.Predictor.Regressor
import ReluMilp.Proofs.Products

/-!
# Networks of regressors

The position of the output layer comes from the number of matrices, but layers are read along the shorter
list. So the steps of a regressor are a chain that breaks off where the vectors end, and the grammar of chains
decides.

* `Regressor.stepsOf` — the steps of matrices and vectors; `spells_drafts` — they spell the layers that are
  read;
* `Conforming` — a vector for every matrix, and matching widths; `sentence_stepsOf` — the steps are then a
  sentence, and only then;
* `Regressor.run` — what the regressor computes, `foldl_stepsOf` — its steps compute the same;
* `Regressor.network_eq_ok` — when a regressor has a network, and which;
* `regressor_network` — all of this together.
-/

namespace ReluMilp

open Scalar

variable {α : Type}

theorem Value.isText_iff {v : Value} {s : String} : v.isText s = true ↔ v = .text s := by
  cases v with
  | text t => exact beq_iff_eq.trans ⟨congrArg Value.text, Value.text.inj⟩
  | null => exact ⟨nofun, nofun⟩
  | bool b => exact ⟨nofun, nofun⟩
  | int n => exact ⟨nofun, nofun⟩
  | real x => exact ⟨nofun, nofun⟩
  | list vs => exact ⟨nofun, nofun⟩
  | record fs => exact ⟨nofun, nofun⟩

/-! ### Steps of matrices and vectors -/

/-- The steps of matrices and vectors. There is a rectifier behind each but the last matrix, and no step where
the vectors have ended. -/
def Regressor.stepsOf : List (Tensor α) → List (Tensor α) → List (Step α)
  | [c], i :: _ => [.transposed c i]
  | c :: cs, i :: is => .transposed c i :: .rectifier :: stepsOf cs is
  | _, _ => []

/-- Matrices and vectors for a vector of the given width: every matrix reads what the one before gives and has
a vector as wide as its columns. Vectors may be left over. -/
inductive Conforming : Nat → List (Tensor α) → List (Tensor α) → Prop
  | nil {k : Nat} {is : List (Tensor α)} : Conforming k [] is
  | cons {k m : Nat} {c i : Tensor α} {cs is : List (Tensor α)} : c.shape = [k, m] →
      i.entries.length = m → Conforming m cs is → Conforming k (c :: cs) (i :: is)

section Steps

variable {cs is : List (Tensor α)} {k : Nat}

/-- There are at least as many vectors as matrices. -/
theorem Conforming.length_le (h : Conforming k cs is) : cs.length ≤ is.length := by
  induction h with
  | nil => exact Nat.zero_le _
  | cons _ _ _ ih => exact Nat.succ_le_succ ih

/-- The first matrix tells the width. -/
theorem Conforming.unique {k' : Nat} (hne : cs ≠ []) (h : Conforming k cs is) (h' : Conforming k' cs is) :
    k = k' := by
  cases h with
  | nil => exact absurd rfl hne
  | cons hc _ _ =>
    cases h' with
    | cons hc' _ _ => exact (List.cons.inj (hc.symm.trans hc')).1

/-- The steps are a sentence exactly if there are matrices, all with matching vectors and widths. -/
theorem sentence_stepsOf : Sentence k (Regressor.stepsOf cs is) ↔ cs ≠ [] ∧ Conforming k cs is := by
  induction cs generalizing k is with
  | nil => exact ⟨nofun, fun h => absurd rfl h.1⟩
  | cons c cs ih =>
    cases is with
    | nil =>
      constructor
      · intro h
        cases cs <;> cases h
      · rintro ⟨-, ⟨⟩⟩
    | cons i is =>
      cases cs with
      | nil =>
        constructor
        · intro h
          cases h with
          | last hs =>
            obtain ⟨hc, hi⟩ := maps_transposed.1 hs
            exact ⟨List.cons_ne_nil _ _, .cons hc hi .nil⟩
        · rintro ⟨-, h⟩
          cases h with
          | cons hc hi _ => exact .last (maps_transposed.2 ⟨hc, hi⟩)
      | cons c' cs =>
        constructor
        · intro h
          cases h with
          | cons hs hrest =>
            obtain ⟨hc, hi⟩ := maps_transposed.1 hs
            exact ⟨List.cons_ne_nil _ _, .cons hc hi (ih.1 hrest).2⟩
        · rintro ⟨-, h⟩
          cases h with
          | cons hc hi hrest =>
            exact .cons (maps_transposed.2 ⟨hc, hi⟩) (ih.2 ⟨List.cons_ne_nil _ _, hrest⟩)

/-- The steps spell the layers that are read, whatever the number of the first one. -/
theorem spells_drafts [Scalar α] (cs is : List (Tensor α)) (j : Nat) :
    Spells (Regressor.stepsOf cs is) (((cs.zip is).zipIdx j).map fun ((c, i), k) =>
      (⟨c.transpose, i, Network.activationAt (j + cs.length) k⟩ : Draft α)) := by
  induction cs generalizing is j with
  | nil => exact .nil
  | cons c cs ih =>
    cases is with
    | nil => cases cs <;> exact .nil
    | cons i is =>
      have hshift : j + (c :: cs).length = j + 1 + cs.length := by
        rw [List.length_cons]
        omega
      rw [hshift, List.zip_cons_cons, List.zipIdx_cons, List.map_cons]
      dsimp only
      cases cs with
      | nil =>
        have hact : Network.activationAt (j + 1 + ([] : List (Tensor α)).length) j = .identity := if_pos rfl
        rw [hact]
        exact .plain .nil
      | cons c' cs =>
        have hact : Network.activationAt (j + 1 + (c' :: cs).length) j = .relu := by
          refine if_neg ?_
          rw [List.length_cons]
          omega
        rw [hact]
        exact .rectified (ih is (j + 1))

end Steps

/-! ### Regressors in use -/

namespace Regressor

/-- What matrices and vectors make of a vector: `v C + c` and the rectifier for each pair but the last, which
has no rectifier. -/
def runFrom : List (Tensor Rat) → List (Tensor Rat) → List Rat → List Rat
  | [c], i :: _, v => c.affine i v
  | c :: cs, i :: is, v => runFrom cs is ((c.affine i v).map fun x => max x 0)
  | _, _, v => v

/-- What a regressor computes. -/
def run (r : Regressor Rat) (v : List Rat) : List Rat := runFrom r.coefficients r.intercepts v

end Regressor

/-- The steps do what matrices and vectors do. -/
theorem foldl_stepsOf {cs is : List (Tensor Rat)} {k : Nat} (h : Conforming k cs is) (v : List Rat) :
    (Regressor.stepsOf cs is).foldl (fun x s => s.apply x) v = Regressor.runFrom cs is v := by
  induction h generalizing v with
  | nil => rfl
  | @cons k m c i cs is hc _ _ ih =>
    cases cs with
    | nil => exact apply_transposed hc i v
    | cons c' cs =>
      show (Regressor.stepsOf (c' :: cs) is).foldl _ (((Step.transposed c i).apply v).map Scalar.relu) = _
      rw [ih, apply_transposed hc, map_relu]
      rfl

/-! ### Networks of regressors -/

namespace Regressor

variable [Scalar α] {r : Regressor α} {name : Value} {n : Network α}

/-- The steps of a regressor. -/
def steps (r : Regressor α) : List (Step α) := stepsOf r.coefficients r.intercepts

/-- A fitted regressor with rectifiers between its layers and nothing behind the last one. -/
structure Plain (r : Regressor α) : Prop where
  fitted : r.fitted = true
  activation : r.activation = .text "relu"
  output : r.outActivation = .text "identity"

theorem spells_steps (r : Regressor α) : Spells r.steps r.drafts := by
  have h := spells_drafts r.coefficients r.intercepts 0
  rw [Nat.zero_add] at h
  exact h

omit [Scalar α] in
/-- A regressor has a network if it is plain and the layers of the network are made of its drafts. -/
theorem network_eq_ok : r.network name = .ok n ↔
    r.Plain ∧ List.Forall₂ Draft.Makes r.drafts n.layers ∧ n.name = nameOr name (.text (lower r.kind)) := by
  have hdrafts : Draft.network r.drafts.reverse (nameOr name (.text (lower r.kind))) = .ok n ↔
      List.Forall₂ Draft.Makes r.drafts n.layers ∧ n.name = nameOr name (.text (lower r.kind)) := by
    rw [draftNetwork_eq_ok, List.reverse_reverse]
  unfold network
  constructor
  · intro h
    split at h
    · cases h
    · rename_i hfitted
      split at h
      · cases h
      · rename_i hact
        split at h
        · cases h
        · rename_i hout
          rw [Bool.not_eq_true, Bool.not_eq_false'] at hfitted hact hout
          exact ⟨⟨hfitted, Value.isText_iff.1 hact, Value.isText_iff.1 hout⟩, hdrafts.1 h⟩
  · rintro ⟨⟨hfitted, hact, hout⟩, h⟩
    rw [hfitted, Value.isText_iff.2 hact, Value.isText_iff.2 hout]
    exact hdrafts.2 h

/-- The widths of a regressor with a network. -/
theorem conforming_of_network (h : r.network name = .ok n) :
    r.coefficients ≠ [] ∧ Conforming n.inputs r.coefficients r.intercepts :=
  sentence_stepsOf.1 (sentence_of_makes r.spells_steps (network_eq_ok.1 h).2.1)

/-- A plain regressor whose matrices have matching vectors and widths has a network. -/
theorem exists_network {k : Nat} (hplain : r.Plain) (hne : r.coefficients ≠ [])
    (h : Conforming k r.coefficients r.intercepts) (name : Value) : ∃ n, r.network name = .ok n := by
  have hsentence : Sentence k r.steps := sentence_stepsOf.2 ⟨hne, h⟩
  obtain ⟨ds, hidden, output, hspells, hmakes, hrelu, hidentity, hchained⟩ := hsentence.spells
  rw [hspells.unique r.spells_steps] at hmakes
  exact ⟨⟨nameOr name (.text (lower r.kind)), hidden, output, hrelu, hidentity, hchained⟩,
    network_eq_ok.2 ⟨hplain, hmakes, rfl⟩⟩

/-- The network has a layer for every matrix. -/
theorem length_layers (h : r.network name = .ok n) : n.layers.length = r.coefficients.length := by
  have hlength : n.layers.length = r.drafts.length := (network_eq_ok.1 h).2.1.length_eq.symm
  rw [hlength]
  unfold drafts
  rw [List.length_map, List.length_zipIdx, List.length_zip]
  exact Nat.min_eq_left (conforming_of_network h).2.length_le

end Regressor

/-- The network of a regressor. There is one exactly if the regressor is fitted, has rectifiers between its
layers and nothing behind the last one, and has matrices, each with a vector as wide as its columns and
with as many rows as the one before has columns. The network has a layer for every matrix and computes on
every vector of the right width what the regressor computes. Every other regressor is refused. -/
theorem regressor_network (r : Regressor Rat) (name : Value) :
    ((∃ n, r.network name = .ok n) ↔
      r.fitted = true ∧ r.activation = .text "relu" ∧ r.outActivation = .text "identity" ∧
        r.coefficients ≠ [] ∧ ∃ k, Conforming k r.coefficients r.intercepts) ∧
    (∀ n, r.network name = .ok n →
      n.layers.length = r.coefficients.length ∧ Conforming n.inputs r.coefficients r.intercepts ∧
      ∀ v, v.length = n.inputs → n.forward (.ofVector v) = .ok (.ofVector (r.run v))) ∧
    ((¬∃ n, r.network name = .ok n) → ∃ e, r.network name = .error e) := by
  refine ⟨⟨?_, ?_⟩, fun n hn => ?_, fun hnot => ?_⟩
  · rintro ⟨n, hn⟩
    obtain ⟨hplain, -⟩ := Regressor.network_eq_ok.1 hn
    obtain ⟨hne, hc⟩ := Regressor.conforming_of_network hn
    exact ⟨hplain.fitted, hplain.activation, hplain.output, hne, n.inputs, hc⟩
  · rintro ⟨hfitted, hact, hout, hne, k, hc⟩
    exact Regressor.exists_network ⟨hfitted, hact, hout⟩ hne hc name
  · obtain ⟨-, hmakes, -⟩ := Regressor.network_eq_ok.1 hn
    obtain ⟨-, hc⟩ := Regressor.conforming_of_network hn
    refine ⟨Regressor.length_layers hn, hc, fun v hv => ?_⟩
    rw [n.forward_ofVector hv]
    unfold Network.eval
    rw [r.spells_steps.foldl_eval hmakes]
    exact congrArg (Except.ok ∘ Tensor.ofVector) (foldl_stepsOf hc v)
  · cases hrun : r.network name with
    | ok n => exact absurd ⟨n, hrun⟩ hnot
    | error e => exact ⟨e, rfl⟩

/-- The absolute value as a regressor. -/
def Regressor.absolute : Regressor Rat :=
  { kind := "MLPRegressor"
    fitted := true
    activation := .text "relu"
    outActivation := .text "identity"
    coefficients := [.signed, .summed]
    intercepts := [.ofVector [0, 0], .ofVector [0]] }

/-- The absolute value without the vector of its output layer. -/
def Regressor.truncated : Regressor Rat :=
  { Regressor.absolute with intercepts := [.ofVector [0, 0]] }

/-- The absolute value has a network of two layers, which is right at minus a half. Without the vector of the
output layer there is none, rather than one with a single layer. -/
theorem regressor_network_absolute :
    (∃ n, Regressor.absolute.network .null = .ok n ∧ n.layers.length = 2 ∧
      n.forward (.ofVector [-1 / 2]) = .ok (.ofVector [1 / 2])) ∧
    ∃ e, Regressor.truncated.network .null = .error e := by
  have hconforming : Conforming 1 Regressor.absolute.coefficients Regressor.absolute.intercepts :=
    .cons rfl rfl (.cons rfl rfl .nil)
  constructor
  · obtain ⟨n, hn⟩ := (regressor_network Regressor.absolute .null).1.2
      ⟨rfl, rfl, rfl, List.cons_ne_nil _ _, 1, hconforming⟩
    obtain ⟨hlength, hc, hforward⟩ := (regressor_network Regressor.absolute .null).2.1 n hn
    have hwidth : 1 = n.inputs := hconforming.unique (List.cons_ne_nil _ _) hc
    have hrun : Regressor.absolute.run [-1 / 2] = [1 / 2] := by decide +kernel
    refine ⟨n, hn, hlength, ?_⟩
    rw [hforward [-1 / 2] hwidth, hrun]
  · refine (regressor_network Regressor.truncated .null).2.2 ?_
    rw [(regressor_network Regressor.truncated .null).1]
    rintro ⟨-, -, -, -, k, hc⟩
    exact absurd hc.length_le (by decide)

end ReluMilp
