import ReluMilp.Tensor.Basic

/-!
# Combining tensors of different shapes

Shapes are aligned at their last dimensions. A dimension of one, or a missing one, is repeated as
often as the other tensor needs; all other dimensions have to agree.

* `commonShape?` — the shape that two shapes combine to;
* `Tensor.combine?` — an operation applied entry by entry;
* `Tensor.fitted?` — the entries repeated to fill a shape;
* `Tensor.sumSecond?` — the entries added along the second dimension.
-/

namespace ReluMilp

/-- The common shape of two shapes of one rank. -/
def commonDims? : List Nat → List Nat → Option (List Nat)
  | [], [] => some []
  | m :: ms, n :: ns =>
    (commonDims? ms ns).bind fun rest =>
      if m = n then some (m :: rest)
      else if m = 1 then some (n :: rest)
      else if n = 1 then some (m :: rest)
      else none
  | _, _ => none

/-- A shape with leading ones, up to a rank. -/
def padShape (rank : Nat) (shape : List Nat) : List Nat :=
  List.replicate (rank - shape.length) 1 ++ shape

/-- The shape that two shapes combine to. -/
def commonShape? (s t : List Nat) : Option (List Nat) :=
  let rank := max s.length t.length
  commonDims? (padShape rank s) (padShape rank t)

/-- The entries of a tensor repeated from one shape to another of the same rank; each pair is a
dimension and what it becomes. -/
def repeatEntries {α : Type} : List (Nat × Nat) → List α → List α
  | [], xs => xs
  | (m, n) :: dims, xs =>
    let blocks := (chunks (volume (dims.map (·.1))) m xs).map (repeatEntries dims)
    if m = n then blocks.flatten else (List.replicate n blocks.flatten).flatten

namespace Tensor

variable {α β γ : Type}

/-- A tensor from a shape and as many entries. -/
def ofEntries? (shape : List Nat) (entries : List α) : Option (Tensor α) :=
  if h : entries.length = volume shape then some ⟨shape, entries, h⟩ else none

/-- The entries of a tensor repeated to a shape that its own one combines to. -/
def spread (t : Tensor α) (shape : List Nat) : List α :=
  repeatEntries ((padShape shape.length t.shape).zip shape) t.entries

/-- An operation applied entry by entry, where the shapes combine. -/
def combine? (f : α → β → γ) (s : Tensor α) (t : Tensor β) : Option (Tensor γ) := do
  let shape ← commonShape? s.shape t.shape
  ofEntries? shape (List.zipWith f (s.spread shape) (t.spread shape))

/-- A shape without leading ones, down to a rank. -/
def trimShape (rank : Nat) : List Nat → List Nat
  | [] => []
  | n :: ns => if n = 1 ∧ rank ≤ ns.length then trimShape rank ns else n :: ns

/-- The entries repeated to fill a shape; leading ones beyond its rank do not matter. -/
def fitted? (t : Tensor α) (shape : List Nat) : Option (List α) := do
  let trimmed ← ofEntries? (trimShape shape.length t.shape) t.entries
  if commonShape? trimmed.shape shape = some shape then some (trimmed.spread shape) else none

/-- The entries added along the second dimension. -/
def sumSecond? [Zero α] [Add α] (t : Tensor α) : Option (Tensor α) :=
  match t.shape with
  | m :: n :: rest =>
    let size := volume rest
    let added (block : List α) : List α :=
      (chunks size n block).foldr (List.zipWith (· + ·)) (List.replicate size 0)
    ofEntries? (m :: rest) ((chunks (n * size) m t.entries).flatMap added)
  | _ => none

end Tensor

end ReluMilp
