import ReluMilp.Network.Layer

/-!
# Networks

* `Chained` — every layer reads as many values as the one before gives;
* `Network` — hidden layers with the rectifier, then an output layer without activation;
* `Network.ofLayers` — a network from a list of layers, or the first thing that is wrong with it;
* `Network.ofReadings` — from weights and biases, where the positions give the activations;
* `Network.eval` — the values of a network on a vector, `Network.forward` — on every row of a tensor.
-/

namespace ReluMilp

variable {α : Type}

/-- Every layer reads as many values as the one before gives. -/
def Chained : List (Layer α) → Prop
  | [] => True
  | [_] => True
  | a :: b :: rest => b.inputs = a.outputs ∧ Chained (b :: rest)

instance decidableChained : (ls : List (Layer α)) → Decidable (Chained ls)
  | [] => .isTrue trivial
  | [_] => .isTrue trivial
  | _ :: b :: rest => @instDecidableAnd _ _ (Nat.decEq _ _) (decidableChained (b :: rest))

/-- The first place where a list of layers is not chained; `k` is the number of its first layer. -/
def firstGap? (k : Nat) : List (Layer α) → Option ParameterCause
  | [] => none
  | [_] => none
  | a :: b :: rest =>
    if b.inputs = a.outputs then firstGap? (k + 1) (b :: rest)
    else some (.layerWidth k b.inputs a.outputs)

theorem firstGap?_eq_none_iff (k : Nat) (ls : List (Layer α)) : firstGap? k ls = none ↔ Chained ls := by
  fun_induction firstGap? k ls with
  | case1 => simp [Chained]
  | case2 => simp [Chained]
  | case3 k a b rest h ih => simp [Chained, h, ih]
  | case4 k a b rest h => simp [Chained, h]

/-- The first layer of a list that has another activation than the rectifier. -/
def firstUnrectified? (k : Nat) : List (Layer α) → Option ModelCause
  | [] => none
  | l :: ls =>
    if l.activation = .relu then firstUnrectified? (k + 1) ls
    else some (.hiddenActivation k l.activation.name)

theorem firstUnrectified?_eq_none_iff (k : Nat) (ls : List (Layer α)) :
    firstUnrectified? k ls = none ↔ ∀ l ∈ ls, l.activation = .relu := by
  fun_induction firstUnrectified? k ls with
  | case1 => simp
  | case2 k l ls h ih => simp [h, ih]
  | case3 k l ls h => simp [h]

/-- A sequential network that can be formulated. -/
structure Network (α : Type) where
  name : Value
  hidden : List (Layer α)
  output : Layer α
  hidden_relu : ∀ l ∈ hidden, l.activation = .relu
  output_identity : output.activation = .identity
  chained : Chained (hidden ++ [output])

namespace Network

/-- All layers, from input to output. -/
def layers (n : Network α) : List (Layer α) := n.hidden ++ [n.output]

/-- How many values the network reads. -/
def inputs (n : Network α) : Nat := (n.hidden.head?.getD n.output).inputs

/-- How many values the network gives. -/
def outputs (n : Network α) : Nat := n.output.outputs

/-- The number of neurons of each layer. -/
def neuronCount (n : Network α) : List Nat := n.layers.map (·.outputs)

/-- The short description of a network: its name and its widths. -/
def describe (n : Network α) : String :=
  let widths := String.intercalate "x" ((n.inputs :: n.neuronCount).map toString)
  "Network(" ++ n.name.asText ++ ", " ++ widths ++ ")"

/-- The network of a list of layers. The activations are looked at before the widths. -/
def ofLayers (layers : List (Layer α)) (name : Value) : Except Fault (Network α) :=
  match layers.getLast? with
  | none => .error (.parameter .noLayer)
  | some output =>
    let hidden := layers.dropLast
    match hr : firstUnrectified? 1 hidden with
    | some c => .error (.noModel name.subject c)
    | none =>
      if ho : output.activation = .identity then
        match hc : firstGap? 1 (hidden ++ [output]) with
        | some c => .error (.parameter c)
        | none => .ok {
            name := name
            hidden := hidden
            output := output
            hidden_relu := (firstUnrectified?_eq_none_iff 1 hidden).1 hr
            output_identity := ho
            chained := (firstGap?_eq_none_iff 1 _).1 hc }
      else .error (.noModel name.subject (.outputActivation output.activation.name))

/-- The activation of the layer at position `k` of `count`. -/
def activationAt (count k : Nat) : Activation := if k + 1 = count then .identity else .relu

/-- The network of weights and biases, a pair per layer: the last layer has no activation, all
others the rectifier. -/
def ofReadings (weights biases : List (Reading α)) (name : Value) : Except Fault (Network α) := do
  if weights.length ≠ biases.length then
    .error (.parameter (.arrayCount weights.length biases.length))
  else
    let layers ← ((weights.zip biases).zipIdx).mapM fun ((w, b), k) => do
      let w ← w
      let b ← b
      Layer.ofTensors w b (activationAt weights.length k)
    ofLayers layers name

/-! ### Evaluation -/

variable [Scalar α]

/-- The values of the network on a vector. -/
def eval (n : Network α) (v : List α) : List α := n.layers.foldl (fun x l => l.eval x) v

/-- The values of the network on every row of a tensor. -/
def forward (n : Network α) (t : Tensor α) : Except Fault (Tensor α) :=
  n.layers.foldlM (fun x l => l.forward x) t

end Network

end ReluMilp
