import ReluMilp.Network.Activation
import ReluMilp.Tensor.Basic

/-!
# Layers

* `Neuron` — a weight per input and a bias; `Neuron.preactivation` — its affine value;
* `Layer` — neurons that read the same inputs, and one activation;
* `Layer.eval` — the values of a layer on a vector, `Layer.forward` — on every row of a tensor;
* `Layer.ofTensors` — a layer from a matrix of weights and a vector of biases.

`length_eval`: a layer gives one value per neuron.
-/

namespace ReluMilp

variable {α : Type}

/-- One neuron: its weights, one per input, and its bias. -/
structure Neuron (α : Type) where
  weights : List α
  bias : α
  deriving Repr, DecidableEq

namespace Neuron

/-- The affine value of a neuron on a vector. -/
def preactivation [Scalar α] (n : Neuron α) (v : List α) : α := Scalar.dot n.weights v + n.bias

end Neuron

/-- Neurons with the same inputs and one activation. -/
structure Layer (α : Type) where
  /-- How many values the layer reads. -/
  inputs : Nat
  neurons : List (Neuron α)
  activation : Activation
  conform : ∀ n ∈ neurons, n.weights.length = inputs

namespace Layer

/-- How many values the layer gives. -/
def outputs (l : Layer α) : Nat := l.neurons.length

/-- The weights, a row per neuron. -/
def weights (l : Layer α) : List (List α) := l.neurons.map (·.weights)

/-- The biases. -/
def bias (l : Layer α) : List α := l.neurons.map (·.bias)

/-- The short description of a layer. -/
def describe (l : Layer α) : String :=
  s!"DenseLayer({l.inputs} -> {l.outputs}, {l.activation.name})"

/-- The same neurons with another activation. -/
def withActivation (l : Layer α) (a : Activation) : Layer α := { l with activation := a }

/-! ### Evaluation -/

variable [Scalar α]

/-- The affine values of all neurons on a vector. -/
def preactivations (l : Layer α) (v : List α) : List α := l.neurons.map (·.preactivation v)

/-- The values of the layer on a vector. -/
def eval (l : Layer α) (v : List α) : List α := (l.preactivations v).map l.activation.apply

@[simp] theorem length_preactivations (l : Layer α) (v : List α) :
    (l.preactivations v).length = l.outputs := by
  simp [preactivations, outputs]

@[simp] theorem length_eval (l : Layer α) (v : List α) : (l.eval v).length = l.outputs := by
  simp [eval]

/-- The values of the layer on every row of a tensor. -/
def forward (l : Layer α) (t : Tensor α) : Except Fault (Tensor α) :=
  if h : t.shape.getLast? = some l.inputs then
    .ok (Tensor.ofRows t.shape.dropLast l.outputs (t.rows.map l.eval)
      (by simp [Tensor.length_rows h])
      (by intro r hr; obtain ⟨v, _, rfl⟩ := List.mem_map.1 hr; simp))
  else .error .wrongValue

/-! ### From tensors -/

omit [Scalar α] in
theorem conform_zipWith {n : Nat} {rows : List (List α)} (h : ∀ r ∈ rows, r.length = n)
    (bias : List α) : ∀ x ∈ List.zipWith Neuron.mk rows bias, x.weights.length = n := by
  induction rows generalizing bias with
  | nil => simp
  | cons r rs ih =>
    cases bias with
    | nil => simp
    | cons b bs =>
      intro x hx
      simp only [List.zipWith_cons_cons, List.mem_cons] at hx
      rcases hx with rfl | hx
      · exact h r (by simp)
      · exact ih (fun r' hr' => h r' (by simp [hr'])) bs x hx

omit [Scalar α] in
/-- The layer of a matrix of weights, a row per neuron, and as many biases. -/
def ofTensors (weights bias : Tensor α) (activation : Activation) : Except Fault (Layer α) :=
  match h : weights.shape with
  | [m, n] =>
    if m = bias.entries.length then
      .ok {
        inputs := n
        neurons := List.zipWith Neuron.mk weights.rows bias.entries
        activation := activation
        conform := conform_zipWith (Tensor.length_of_mem_rows (by simp [h])) bias.entries }
    else .error (.parameter (.biasLength m bias.entries.length))
  | _ => .error (.parameter (.weightsNotMatrix weights.rank))

omit [Scalar α] in
/-- The layer of two readings and the name of an activation. The weights are looked at before the
biases, and the activation last. -/
def ofReadings (weights bias : Reading α) (activation : Value) : Except Fault (Layer α) := do
  let w ← weights
  let b ← bias
  let l ← ofTensors w b .identity
  let a ← Activation.ofName activation
  .ok (l.withActivation a)

end Layer

end ReluMilp
