import ReluMilp.Formulation.Build
import ReluMilp.Tensor.Broadcast

/-!
# Replacing rows and removing formulations

* `BoundArgument` — a bound as given: what a table keeps of it, for one neuron and for all of a layer,
  and what a row is made of;
* `Formulation.replaceBigM` — other bounds for a hidden neuron, whose two rows with a binary variable
  are replaced;
* `Formulation.remove` — everything of a formulation taken out of the model.

The old rows of a neuron are removed before the bounds are looked at; then the table changes, the
upper bound first, and then the rows are added. A refusal on the way leaves a changed formulation,
which is part of the result; what changed in the model waits then.
-/

namespace ReluMilp

/-- A bound as given: what a table keeps of it, for one neuron and for a layer, and the number that a
row is made of. -/
structure BoundArgument (α : Type) where
  stored : Except Fault α
  spread : Reading α
  used : Except Fault α

namespace BoundArgument

/-- A value as an entry of a table: nothing is an undefined number, a text is read as a number. -/
def storedValue : Value → Except Fault Float
  | .list _ => .error .wrongValue
  | v => v.entry

/-- A value as the number of a row, which no text is. -/
def usedValue : Value → Except Fault Float
  | .text _ => .error .wrongKind
  | v => v.asReal

/-- A value as a bound. -/
def ofValue (v : Value) : BoundArgument Float := ⟨storedValue v, Tensor.ofValue v, usedValue v⟩

/-- The bounds of `count` copies of a layer of `n` neurons: an array that fills them by repetition. -/
def forLayer {α : Type} (b : BoundArgument α) (count n : Nat) : Except Fault (List α) := do
  ((← b.spread).fitted? [count, n]).elim (.error .wrongValue) .ok

end BoundArgument

variable {α : Type} [Scalar α]

/-- What a replacement reached, and why it was refused, if it was. -/
structure Replacement (β : Type) where
  result : β
  refusal : Option Fault

omit [Scalar α] in
/-- An action whose fault is part of its result. -/
def Action.attempt {β : Type} (act : Action α β) : Action α (Except Fault β) := fun w =>
  match act w with
  | .ok b v => .ok (.ok b) v
  | .error f v => .ok (.error f) v

/-- The position that an index stands for; negative ones count from the end. -/
def position? (length : Nat) (i : Int) : Option Nat :=
  let k := if i < 0 then i + length else i
  if 0 ≤ k ∧ k < length then some k.toNat else none

namespace Formulation

omit [Scalar α] in
/-- The position of the hidden layer that a value names, counted from zero. -/
def hiddenPosition (f : Formulation α) (layer : Value) : Except Fault Nat :=
  match layer with
  | .list _ => .error .wrongKind
  | .record _ => .error .wrongKind
  | layer =>
    match layer.whole? with
    | some k =>
      if 1 ≤ k ∧ k ≤ f.hidden.length then .ok (k - 1).toNat
      else .error (.parameter (.notHidden layer.asText))
    | none => .error (.parameter (.notHidden layer.asText))

omit [Scalar α] in
/-- The position of the neuron that a value names among `n` of them. -/
def neuronPosition (n : Nat) (neuron : Value) : Except Fault Nat :=
  match neuron.index? with
  | none => .error .wrongKind
  | some i => (position? n i).elim (.error .outOfRange) .ok

/-- Which bounds of a layer are meant. -/
inductive Selection where
  | single (i : Nat)
  /-- As many copies of the layer as said, at most one. -/
  | copies (count : Nat)

/-- What a value selects where it stands for neuron `i`: a truth value stands for all neurons or for
none. -/
def Selection.ofValue (i : Nat) : Value → Selection
  | .bool b => copies (if b then 1 else 0)
  | _ => single i

omit [Scalar α] in
/-- The bounds of a layer, those of the selected neurons given anew. -/
def replaced (set : Interval α → α → Interval α) (b : BoundArgument α) (is : List (Interval α)) :
    Selection → Except Fault (List (Interval α))
  | .single i => do
    let a ← b.stored
    return is.modify i (set · a)
  | .copies count => do
    let as ← b.forLayer count is.length
    return if count = 0 then is else List.zipWith set is as

omit [Scalar α] in
/-- Other bounds of layer `k` in the table. -/
def withLayer (f : Formulation α) (k : Nat) (is : List (Interval α)) : Formulation α :=
  { f with table := f.table.set k is }

omit [Scalar α] in
/-- Another place of a neuron in the model. -/
def withUnit (f : Formulation α) (k i : Nat) (u : HiddenUnit) : Formulation α :=
  { f with body? := f.body?.map fun b =>
      { b with hidden := b.hidden.modify k fun us => us.set i u } }

omit [Scalar α] in
/-- The formulation with given bounds in its table, the upper one first. -/
def storeBounds (f : Formulation α) (k : Nat) (which : Selection) (upper lower : BoundArgument α) :
    Replacement (Formulation α) :=
  let is := (f.table[k]?).getD []
  match replaced (fun i a => { i with upper := a }) upper is which with
  | .error fault => ⟨f, some fault⟩
  | .ok is =>
    match replaced (fun i a => { i with lower := a }) lower is which with
    | .error fault => ⟨f.withLayer k is, some fault⟩
    | .ok is => ⟨f.withLayer k is, none⟩

end Formulation

/-- The two rows of a neuron with a binary variable, added for given bounds. An upper row stays
without a lower one, and waits, if the lower bound is no number. -/
def renewRows (name : Value) (layer neuron : Value) (u : HiddenUnit)
    (upper lower : BoundArgument α) : Action α (Replacement HiddenUnit) := do
  let base ← nextRow
  match upper.used, lower.used with
  | .error fault, _ => return ⟨u, some fault⟩
  | .ok a, .error fault =>
    match ← (Action.stage [upperBlock name layer neuron u.x u.z a]).attempt with
    | .ok _ => return ⟨{ u with upperRow := base }, some fault⟩
    | .error fault => return ⟨u, some fault⟩
  | .ok a, .ok b =>
    match ← (Action.commit (bigMBlocks name layer neuron u.x u.s u.z ⟨a, b⟩)).attempt with
    | .ok _ => return ⟨{ u with upperRow := base, lowerRow := base + 1 }, none⟩
    | .error fault => return ⟨u, some fault⟩

namespace Formulation

/-- The rows of a neuron with a binary variable, made anew from other bounds. A layer given as a
number with places is found, but its bounds are not; a neuron given as a truth value has bounds,
but no row can be made of those. -/
def replaceBigM (f : Formulation α) (layer neuron : Value) (upper lower : BoundArgument α) :
    Action α (Replacement (Formulation α)) := do
  let k ← .ofExcept (f.hiddenPosition layer)
  let us := (f.hidden[k]?).getD []
  let i ← .ofExcept (neuronPosition us.length neuron)
  match us[i]? with
  | none => throw .outOfRange
  | some u => do
    .dropRows [u.upperRow, u.lowerRow]
    match layer.index? with
    | none => return ⟨f, some .wrongKind⟩
    | some _ =>
      let stored := f.storeBounds k (.ofValue i neuron) upper lower
      match stored.refusal, neuron with
      | some _, _ => return stored
      | none, .bool _ => return ⟨stored.result, some .wrongValue⟩
      | none, _ =>
        let renewed ← renewRows f.name layer neuron u upper lower
        return ⟨stored.result.withUnit k i renewed.result, renewed.refusal⟩

omit [Scalar α] in
/-- The formulation taken out of the model; its bounds stay known. Nothing happens the second
time. -/
def remove (f : Formulation α) : Action α (Formulation α) :=
  match f.body? with
  | none => pure f
  | some b => do
    .dropRows b.rows
    .change fun m => m.removeVars b.vars
    return { f with body? := none }

end Formulation

end ReluMilp
