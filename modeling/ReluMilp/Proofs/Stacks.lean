import ReluMilp.Predictor.LayerStack
import ReluMilp.Proofs.Products

/-!
# The grammar of stacks

A stack is read like a chain, once every layer is replaced by the steps that it means: an affine layer and a
rectifier may stand in one layer or in two, and some layers mean no step at all.

* `StackLayer.Means`, `LayerStack.Means` — the steps that supported layers mean;
* `StackLayer.apply`, `LayerStack.run` — what the layers do when the predictor is used;
* `collect_cons_eq_ok`, `LayerStack.collect_eq_ok` — one layer and all layers are collected like their steps;
* `LayerStack.network_eq_ok` — when a stack has a network, and which;
* `LayerStack.Means.run_eq` — the steps do what the layers do;
* `stack_network` — the grammar, the meaning and the faults.
-/

namespace ReluMilp

open Scalar

variable {α : Type}

/-! ### What layers mean -/

section Means

variable [Scalar α]

/-- The bias of an affine layer, zeros if there is none. -/
def StackLayer.biasOf (k : Tensor α) (b : Option (Tensor α)) : Tensor α := b.getD (Draft.zeros k.shape[1]?)

/-- A supported layer and the steps that it means. A rectifier is plain: it has no slope below zero, starts
at zero and has no largest value. -/
inductive StackLayer.Means : StackLayer α → List (Step α) → Prop
  | affine {k : Tensor α} {b : Option (Tensor α)} {name : String} : name = "linear" →
      Means (.dense k b name) [.transposed k (biasOf k b)]
  | rectified {k : Tensor α} {b : Option (Tensor α)} {name : String} : name = "relu" →
      Means (.dense k b name) [.transposed k (biasOf k b), .rectifier]
  | rectifier {slope threshold : α} : isZero slope = true → isZero threshold = true →
      Means (.rectifier slope threshold none) [.rectifier]
  | relu {name : String} : name = "relu" → Means (.activation name) [.rectifier]
  | linear {name : String} : name = "linear" → Means (.activation name) []
  | dropout : Means .dropout []
  | input : Means .input []

/-- Supported layers and the steps that they mean, one after the other. -/
inductive LayerStack.Means : List (StackLayer α) → List (Step α) → Prop
  | nil : Means [] []
  | cons {l : StackLayer α} {ls : List (StackLayer α)} {steps rest : List (Step α)} :
      l.Means steps → Means ls rest → Means (l :: ls) (steps ++ rest)

/-- The affine map of an affine layer. -/
def StackLayer.affine? : StackLayer α → Option (Step α)
  | .dense k b _ => some (.transposed k (biasOf k b))
  | _ => none

variable {l : StackLayer α} {layers : List (StackLayer α)} {steps : List (Step α)}

theorem StackLayer.Means.acts (h : l.Means steps) : ∀ s ∈ steps, s.acts = true := by
  cases h with
  | affine _ => simp [Step.transposed, Step.acts]
  | rectified _ => simp [Step.transposed, Step.acts]
  | rectifier _ _ => simp [Step.acts]
  | relu _ => simp [Step.acts]
  | linear _ => simp
  | dropout => simp
  | input => simp

theorem StackLayer.Means.filter_affine (h : l.Means steps) :
    steps.filter Step.isAffine = l.affine?.toList := by
  cases h <;> rfl

/-- A layer means one list of steps at most. -/
theorem StackLayer.Means.unique {steps' : List (Step α)} (h : l.Means steps) (h' : l.Means steps') :
    steps' = steps := by
  have hnames : ∀ {name : String}, name = "linear" → name ≠ "relu" := by
    rintro _ rfl
    decide
  cases h with
  | affine hlinear =>
    cases h' with
    | affine _ => rfl
    | rectified hrelu => exact absurd hrelu (hnames hlinear)
  | rectified hrelu =>
    cases h' with
    | affine hlinear => exact absurd hrelu (hnames hlinear)
    | rectified _ => rfl
  | rectifier _ _ =>
    cases h'
    rfl
  | relu hrelu =>
    cases h' with
    | relu _ => rfl
    | linear hlinear => exact absurd hrelu (hnames hlinear)
  | linear hlinear =>
    cases h' with
    | relu hrelu => exact absurd hrelu (hnames hlinear)
    | linear _ => rfl
  | dropout =>
    cases h'
    rfl
  | input =>
    cases h'
    rfl

/-- So do layers one after the other. -/
theorem LayerStack.Means.unique {steps' : List (Step α)} (h : LayerStack.Means layers steps)
    (h' : LayerStack.Means layers steps') : steps' = steps := by
  induction h generalizing steps' with
  | nil =>
    cases h'
    rfl
  | cons hl _ ih =>
    cases h' with
    | cons hl' hrest => rw [hl.unique hl', ih hrest]

theorem LayerStack.Means.acts (h : LayerStack.Means layers steps) : ∀ s ∈ steps, s.acts = true := by
  induction h with
  | nil => exact nofun
  | cons hl _ ih =>
    intro s hs
    rcases List.mem_append.1 hs with hs | hs
    · exact hl.acts s hs
    · exact ih s hs

/-- The affine maps among the steps are those of the affine layers. -/
theorem LayerStack.Means.filter_affine (h : LayerStack.Means layers steps) :
    steps.filter Step.isAffine = layers.filterMap StackLayer.affine? := by
  induction h with
  | nil => rfl
  | @cons l ls steps rest hl _ ih =>
    rw [List.filter_append, hl.filter_affine, ih]
    cases hl <;> rfl

end Means

/-! ### Stacks in use -/

/-- What activations with other names do, and layers of other kinds. -/
structure OtherMeanings where
  activation : String → List Rat → List Rat
  layer : String → List Rat → List Rat

namespace StackLayer

/-- A rectifier on an entry: the largest value from there on, the entry itself above the threshold, and a slope
below it. -/
def rectify (slope threshold : Rat) (maxValue : Option Rat) (x : Rat) : Rat :=
  let y := if threshold ≤ x then x else slope * (x - threshold)
  maxValue.elim y fun c => if c ≤ x then c else y

/-- A named activation on a vector. -/
def activate (others : OtherMeanings) (name : String) (v : List Rat) : List Rat :=
  if name = "relu" then v.map fun x => max x 0
  else if name = "linear" then v
  else others.activation name v

/-- What a layer makes of a vector when the predictor is used. -/
def apply (others : OtherMeanings) : StackLayer Rat → List Rat → List Rat
  | dense k b name, v => activate others name (k.affine (biasOf k b) v)
  | rectifier slope threshold maxValue, v => v.map (rectify slope threshold maxValue)
  | activation name, v => activate others name v
  | dropout, v => v
  | input, v => v
  | other name, v => others.layer name v

end StackLayer

/-- All layers one after the other. -/
def LayerStack.run (others : OtherMeanings) (s : LayerStack Rat) (v : List Rat) : List Rat :=
  s.layers.foldl (fun x l => l.apply others x) v

theorem isZero_iff {a : Rat} : isZero a = true ↔ a = 0 := by
  show decide (some a = some 0) = true ↔ a = 0
  rw [decide_eq_true_iff, Option.some_inj]

/-- A plain rectifier is the rectifier of networks. -/
theorem rectify_plain (x : Rat) : StackLayer.rectify 0 0 none x = Scalar.relu x := by
  rw [relu_eq_max]
  show (if 0 ≤ x then x else 0 * (x - 0)) = max x 0
  split
  · rename_i hx
    exact (max_eq_left hx).symm
  · rename_i hx
    rw [zero_mul, max_eq_right (not_le.1 hx).le]

/-- Every affine map of a sentence has its widths. -/
theorem Sentence.exists_maps {k : Nat} {steps : List (Step α)} (h : Sentence k steps) :
    ∀ s ∈ steps, s.isAffine = true → ∃ n m, s.Maps n m := by
  induction h with
  | last hs =>
    intro s hmem _
    rw [List.mem_singleton.1 hmem]
    exact ⟨_, _, hs⟩
  | cons hs _ ih =>
    intro s hmem ha
    rcases List.mem_cons.1 hmem with rfl | hmem
    · exact ⟨_, _, hs⟩
    rcases List.mem_cons.1 hmem with rfl | hmem
    · cases ha
    · exact ih s hmem ha

/-- The steps of a layer do what the layer does, if its matrix is one. -/
theorem StackLayer.Means.apply_eq {l : StackLayer Rat} {steps : List (Step Rat)} (h : l.Means steps)
    (hmaps : ∀ s ∈ steps, s.isAffine = true → ∃ n m, s.Maps n m) (others : OtherMeanings) (v : List Rat) :
    steps.foldl (fun x s => s.apply x) v = l.apply others v := by
  cases h with
  | affine hname =>
    obtain ⟨n, m, hm⟩ := hmaps _ List.mem_cons_self rfl
    subst hname
    exact apply_transposed (maps_transposed.1 hm).1 _ v
  | @rectified k b _ hname =>
    obtain ⟨n, m, hm⟩ := hmaps _ List.mem_cons_self rfl
    subst hname
    show ((Step.transposed k (biasOf k b)).apply v).map Scalar.relu = _
    rw [apply_transposed (maps_transposed.1 hm).1, map_relu]
    rfl
  | rectifier hslope hthreshold =>
    rw [isZero_iff.1 hslope, isZero_iff.1 hthreshold]
    exact List.map_congr_left fun x _ => (rectify_plain x).symm
  | relu hname =>
    subst hname
    exact map_relu v
  | linear hname =>
    subst hname
    rfl
  | dropout => rfl
  | input => rfl

/-- The steps do what the layers do. -/
theorem LayerStack.Means.run_eq {layers : List (StackLayer Rat)} {steps : List (Step Rat)}
    (h : LayerStack.Means layers steps)
    (hmaps : ∀ s ∈ steps, s.isAffine = true → ∃ n m, s.Maps n m) (others : OtherMeanings) (v : List Rat) :
    steps.foldl (fun x s => s.apply x) v = layers.foldl (fun x l => l.apply others x) v := by
  induction h generalizing v with
  | nil => rfl
  | cons hl _ ih =>
    rw [List.foldl_append, List.foldl_cons,
      hl.apply_eq (fun s hs => hmaps s (List.mem_append_left _ hs)) others v]
    exact ih (fun s hs => hmaps s (List.mem_append_right _ hs)) _

/-! ### Layers that are collected -/

section Collecting

variable [Scalar α] {kind : String} {acc ds : List (Draft α)} {l : StackLayer α}
  {layers : List (StackLayer α)} {steps : List (Step α)}

omit [Scalar α] in
theorem activation?_eq_some {name : String} {a : Activation} :
    LayerStack.activation? name = some a ↔ name = "relu" ∧ a = .relu ∨ name = "linear" ∧ a = .identity := by
  unfold LayerStack.activation?
  constructor
  · intro h
    split at h
    · rename_i hname
      exact .inl ⟨hname, (Option.some.inj h).symm⟩
    · split at h
      · rename_i hname
        exact .inr ⟨hname, (Option.some.inj h).symm⟩
      · cases h
  · rintro (⟨rfl, rfl⟩ | ⟨rfl, rfl⟩) <;> rfl

/-- Only a plain rectifier has no fault. -/
theorem rectifierFault?_eq_none {slope threshold : α} {maxValue : Option α} :
    LayerStack.rectifierFault? slope threshold maxValue = none ↔
      isZero slope = true ∧ isZero threshold = true ∧ maxValue = none := by
  unfold LayerStack.rectifierFault?
  cases isZero slope <;> cases isZero threshold <;> cases maxValue <;> simp

/-- A rectifier is put on the layer in hand as in a chain. -/
theorem rectified_eq_ok {acc' : List (Draft α)} :
    LayerStack.rectified kind acc = .ok acc' ↔ StepChain.collect kind acc [.rectifier] = .ok acc' := by
  unfold LayerStack.rectified StepChain.collect
  cases Draft.rectify? acc with
  | none =>
    constructor
    · intro h
      cases h
    · intro h
      cases h
  | some _ => exact Iff.rfl

theorem collect_append (rest : List (Step α)) : StepChain.collect kind acc (steps ++ rest) =
    (StepChain.collect kind acc steps >>= fun ds => StepChain.collect kind ds rest) := by
  induction steps generalizing acc with
  | nil => rfl
  | cons s steps ih =>
    cases s with
    | affine w b => exact ih
    | rectifier =>
      rw [List.cons_append]
      simp only [StepChain.collect]
      cases Draft.rectify? acc with
      | none => rfl
      | some _ => exact ih
    | dropout => exact ih
    | identity => exact ih
    | unreadable fault => rfl
    | other name => rfl

/-- One layer is collected exactly if it is supported and its steps are collected in a chain. -/
theorem collect_cons_eq_ok : LayerStack.collect kind acc (l :: layers) = .ok ds ↔ ∃ steps acc',
    l.Means steps ∧ StepChain.collect kind acc steps = .ok acc' ∧
      LayerStack.collect kind acc' layers = .ok ds := by
  constructor
  · intro h
    cases l with
    | dense k b name =>
      unfold LayerStack.collect at h
      cases ha : LayerStack.activation? name with
      | none =>
        rw [ha] at h
        cases h
      | some a =>
        rw [ha] at h
        obtain ⟨rfl, rfl⟩ | ⟨rfl, rfl⟩ := activation?_eq_some.1 ha
        · exact ⟨_, _, .rectified rfl, rfl, h⟩
        · exact ⟨_, _, .affine rfl, rfl, h⟩
    | rectifier slope threshold maxValue =>
      unfold LayerStack.collect at h
      cases hf : LayerStack.rectifierFault? slope threshold maxValue with
      | some c =>
        rw [hf] at h
        cases h
      | none =>
        rw [hf] at h
        obtain ⟨hslope, hthreshold, rfl⟩ := rectifierFault?_eq_none.1 hf
        obtain ⟨acc', hacc, h⟩ := Except.bind_eq_ok.1 h
        exact ⟨_, _, .rectifier hslope hthreshold, rectified_eq_ok.1 hacc, h⟩
    | activation name =>
      unfold LayerStack.collect at h
      cases ha : LayerStack.activation? name with
      | none =>
        rw [ha] at h
        cases h
      | some a =>
        rw [ha] at h
        obtain ⟨rfl, rfl⟩ | ⟨rfl, rfl⟩ := activation?_eq_some.1 ha
        · obtain ⟨acc', hacc, h⟩ := Except.bind_eq_ok.1 h
          exact ⟨_, _, .relu rfl, rectified_eq_ok.1 hacc, h⟩
        · exact ⟨_, _, .linear rfl, rfl, h⟩
    | dropout => exact ⟨_, _, .dropout, rfl, h⟩
    | input => exact ⟨_, _, .input, rfl, h⟩
    | other name => cases h
  · rintro ⟨steps, acc', hmeans, hacc, h⟩
    cases hmeans with
    | affine hname =>
      subst hname
      cases hacc
      exact h
    | rectified hname =>
      subst hname
      cases hacc
      exact h
    | rectifier hslope hthreshold =>
      unfold LayerStack.collect
      rw [rectifierFault?_eq_none.2 ⟨hslope, hthreshold, rfl⟩]
      exact Except.bind_eq_ok.2 ⟨acc', rectified_eq_ok.2 hacc, h⟩
    | relu hname =>
      subst hname
      exact Except.bind_eq_ok.2 ⟨acc', rectified_eq_ok.2 hacc, h⟩
    | linear hname =>
      subst hname
      cases hacc
      exact h
    | dropout =>
      cases hacc
      exact h
    | input =>
      cases hacc
      exact h

/-- Layers are collected exactly if they are supported and their steps are collected in a chain. -/
theorem LayerStack.collect_eq_ok : LayerStack.collect kind acc layers = .ok ds ↔
    ∃ steps, LayerStack.Means layers steps ∧ StepChain.collect kind acc steps = .ok ds := by
  induction layers generalizing acc with
  | nil =>
    constructor
    · exact fun h => ⟨[], .nil, h⟩
    · rintro ⟨_, ⟨⟩, h⟩
      exact h
  | cons l layers ih =>
    rw [collect_cons_eq_ok]
    constructor
    · rintro ⟨steps, acc', hl, hacc, h⟩
      obtain ⟨rest, hrest, h⟩ := ih.1 h
      refine ⟨steps ++ rest, .cons hl hrest, ?_⟩
      rw [collect_append, hacc]
      exact h
    · rintro ⟨_, hmeans, h⟩
      cases hmeans with
      | cons hl hrest =>
        rw [collect_append] at h
        obtain ⟨acc', hacc, h⟩ := Except.bind_eq_ok.1 h
        exact ⟨_, acc', hl, hacc, ih.2 ⟨_, hrest, h⟩⟩

omit [Scalar α] in
/-- A rectifier that is not put on the layer in hand is refused with a reason. -/
theorem rectified_error {e : Fault} (h : LayerStack.rectified kind acc = .error e) :
    ∃ cause, e = .noModel kind cause := by
  unfold LayerStack.rectified at h
  cases hr : Draft.rectify? acc with
  | none =>
    rw [hr] at h
    cases h
    exact ⟨_, rfl⟩
  | some _ =>
    rw [hr] at h
    cases h

/-- Layers that are not collected are refused with a reason. -/
theorem LayerStack.collect_error {e : Fault} (h : LayerStack.collect kind acc layers = .error e) :
    ∃ cause, e = .noModel kind cause := by
  induction layers generalizing acc with
  | nil => cases h
  | cons l layers ih =>
    cases l with
    | dense k b name =>
      unfold LayerStack.collect at h
      cases ha : LayerStack.activation? name with
      | none =>
        rw [ha] at h
        cases h
        exact ⟨_, rfl⟩
      | some a =>
        rw [ha] at h
        exact ih h
    | rectifier slope threshold maxValue =>
      unfold LayerStack.collect at h
      cases hf : LayerStack.rectifierFault? slope threshold maxValue with
      | some c =>
        rw [hf] at h
        cases h
        exact ⟨_, rfl⟩
      | none =>
        rw [hf] at h
        rcases Except.bind_eq_error.1 h with h | ⟨_, -, h⟩
        · exact rectified_error h
        · exact ih h
    | activation name =>
      unfold LayerStack.collect at h
      cases ha : LayerStack.activation? name with
      | none =>
        rw [ha] at h
        cases h
        exact ⟨_, rfl⟩
      | some a =>
        rw [ha] at h
        cases a with
        | relu =>
          rcases Except.bind_eq_error.1 h with h | ⟨_, -, h⟩
          · exact rectified_error h
          · exact ih h
        | identity => exact ih h
    | dropout => exact ih h
    | input => exact ih h
    | other name =>
      cases h
      exact ⟨_, rfl⟩

end Collecting

/-! ### Networks of stacks -/

namespace LayerStack

variable [Scalar α] {s : LayerStack α} {name : Value} {n : Network α} {steps : List (Step α)}

/-- A stack has a network if its layers mean steps that spell drafts of which the layers of the network are
made. -/
theorem network_eq_ok : s.network name = .ok n ↔
    s.built = true ∧ n.name = nameOr name s.name ∧
      ∃ steps ds, Means s.layers steps ∧ Spells steps ds ∧ List.Forall₂ Draft.Makes ds n.layers := by
  unfold network
  constructor
  · intro h
    split at h
    · rename_i hbuilt
      obtain ⟨ds, hds, h⟩ := Except.bind_eq_ok.1 h
      obtain ⟨steps, hmeans, hds⟩ := collect_eq_ok.1 hds
      have hspells := (ReluMilp.collect_eq_ok hmeans.acts).1 hds
      cases ds with
      | nil => cases h
      | cons d ds =>
        obtain ⟨hmakes, hname⟩ := draftNetwork_eq_ok.1 h
        exact ⟨hbuilt, hname, steps, _, hmeans, hspells, hmakes⟩
    · cases h
  · rintro ⟨hbuilt, hname, steps, ds, hmeans, hspells, hmakes⟩
    rw [if_pos hbuilt]
    refine Except.bind_eq_ok.2 ⟨ds.reverse, collect_eq_ok.2 ⟨steps, hmeans, ?_⟩, ?_⟩
    · refine (ReluMilp.collect_eq_ok hmeans.acts).2 ?_
      rw [List.reverse_reverse]
      exact hspells
    · cases hrev : ds.reverse with
      | nil =>
        rw [List.reverse_eq_nil_iff.1 hrev, List.forall₂_nil_left_iff] at hmakes
        exact absurd hmakes n.layers_ne_nil
      | cons d ds' =>
        refine draftNetwork_eq_ok.2 ⟨?_, hname⟩
        rw [← hrev, List.reverse_reverse]
        exact hmakes

/-- Shapes that conform: each affine layer is as wide as the one before. -/
def Conforms (s : LayerStack α) : Prop := ∃ k, Aligned k (s.layers.filterMap StackLayer.affine?)

/-- A stack without a network whose shapes conform is refused with a reason. -/
theorem network_error {e : Fault} (hc : s.Conforms) (h : s.network name = .error e) :
    ∃ subject cause, e = .noModel subject cause := by
  unfold network at h
  split at h
  · obtain ⟨k, haligned⟩ := hc
    rcases Except.bind_eq_error.1 h with h | ⟨ds, hds, h⟩
    · exact ⟨_, collect_error h⟩
    · obtain ⟨steps, hmeans, hds⟩ := collect_eq_ok.1 hds
      have hspells := (ReluMilp.collect_eq_ok hmeans.acts).1 hds
      rw [← hmeans.filter_affine] at haligned
      obtain ⟨ls, hmakes, hchained, -⟩ := hspells.makes_chained haligned
      cases ds with
      | nil =>
        cases h
        exact ⟨_, _, rfl⟩
      | cons d ds =>
        have hlayers : Network.ofLayers ls (nameOr name s.name) = .error e := by
          rw [← draftNetwork_of_makes _ hmakes]
          exact h
        have hne : ls ≠ [] := by
          rintro rfl
          rw [List.forall₂_nil_right_iff, List.reverse_eq_nil_iff] at hmakes
          cases hmakes
        obtain ⟨_, -, rfl⟩ | ⟨-, rfl⟩ := ofLayers_error hne hchained hlayers
        · exact ⟨_, _, rfl⟩
        · exact ⟨_, _, rfl⟩
  · cases h
    exact ⟨_, _, rfl⟩

end LayerStack

/-- The grammar of stacks. A stack has a network exactly if its widths are known and all its layers are
supported, and the steps that these mean are an affine map and then a rectifier and an affine map any
number of times, with matching widths. The network has a layer for each affine one, in order, and
computes on every vector of the right width what the layers do one after the other, whatever layers do
that are not supported. Without a network a stack is refused, and if the shapes conform it is refused
with a reason. -/
theorem stack_network (s : LayerStack Rat) (name : Value) :
    ((∃ n, s.network name = .ok n) ↔
      s.built = true ∧ ∃ steps k, LayerStack.Means s.layers steps ∧ Sentence k steps) ∧
    (∀ n, s.network name = .ok n →
      (∃ steps, LayerStack.Means s.layers steps ∧ Sentence n.inputs steps) ∧
      List.Forall₂ Layer.Holds (s.layers.filterMap StackLayer.affine?) n.layers ∧
      ∀ others v, v.length = n.inputs → n.forward (.ofVector v) = .ok (.ofVector (s.run others v))) ∧
    ((¬∃ n, s.network name = .ok n) → ∃ e, s.network name = .error e ∧
      (s.Conforms → ∃ subject cause, e = .noModel subject cause)) := by
  refine ⟨⟨?_, ?_⟩, fun n hn => ?_, fun hnot => ?_⟩
  · rintro ⟨n, hn⟩
    obtain ⟨hbuilt, -, steps, ds, hmeans, hspells, hmakes⟩ := LayerStack.network_eq_ok.1 hn
    exact ⟨hbuilt, steps, n.inputs, hmeans, sentence_of_makes hspells hmakes⟩
  · rintro ⟨hbuilt, steps, k, hmeans, hsentence⟩
    obtain ⟨ds, hidden, output, hspells, hmakes, hrelu, hidentity, hchained⟩ := hsentence.spells
    exact ⟨⟨nameOr name s.name, hidden, output, hrelu, hidentity, hchained⟩,
      LayerStack.network_eq_ok.2 ⟨hbuilt, rfl, steps, ds, hmeans, hspells, hmakes⟩⟩
  · obtain ⟨-, -, steps, ds, hmeans, hspells, hmakes⟩ := LayerStack.network_eq_ok.1 hn
    have hsentence := sentence_of_makes hspells hmakes
    refine ⟨⟨steps, hmeans, hsentence⟩, ?_, fun others v hv => ?_⟩
    · rw [← hmeans.filter_affine]
      exact hspells.forall₂_holds hmakes
    · rw [n.forward_ofVector hv]
      unfold Network.eval LayerStack.run
      rw [hspells.foldl_eval hmakes, hmeans.run_eq hsentence.exists_maps others]
  · cases hrun : s.network name with
    | ok n => exact absurd ⟨n, hrun⟩ hnot
    | error e => exact ⟨e, rfl, fun hc => LayerStack.network_error hc hrun⟩

/-- The absolute value as a stack. Its rectifier stands in the first affine layer. -/
def LayerStack.absolute : LayerStack Rat :=
  { kind := "Sequential"
    name := .text "sequential"
    built := true
    layers := [.input, .dense .signed none "relu", .dropout, .activation "linear",
      .dense .summed (some (.ofVector [0])) "linear"] }

/-- The absolute value with a second rectifier behind the first one. -/
def LayerStack.repeated : LayerStack Rat :=
  { LayerStack.absolute with layers := LayerStack.absolute.layers.take 3 ++ [.rectifier 0 0 none] }

/-- The absolute value has a network, which is right at minus a half. With a second rectifier behind the first
one it has none. -/
theorem stack_network_absolute :
    (∃ n, LayerStack.absolute.network .null = .ok n ∧
      n.forward (.ofVector [-1 / 2]) = .ok (.ofVector [1 / 2])) ∧
    ∃ subject cause, LayerStack.repeated.network .null = .error (.noModel subject cause) := by
  have hfirst : (Step.transposed Tensor.signed (StackLayer.biasOf .signed none)).Maps 1 2 :=
    maps_transposed.2 ⟨rfl, rfl⟩
  have hsecond : (Step.transposed Tensor.summed (StackLayer.biasOf .summed (some (.ofVector [0])))).Maps 2 1 :=
    maps_transposed.2 ⟨rfl, rfl⟩
  constructor
  · have hmeans : LayerStack.Means LayerStack.absolute.layers _ :=
      .cons .input (.cons (.rectified rfl) (.cons .dropout (.cons (.linear rfl) (.cons (.affine rfl) .nil))))
    obtain ⟨n, hn⟩ := (stack_network LayerStack.absolute .null).1.2
      ⟨rfl, _, 1, hmeans, .cons hfirst (.last hsecond)⟩
    obtain ⟨⟨steps, hsteps, hsentence⟩, -, hforward⟩ := (stack_network LayerStack.absolute .null).2.1 n hn
    have hwidth : 1 = n.inputs := by
      rw [hmeans.unique hsteps] at hsentence
      cases hsentence with
      | cons hs _ => exact (List.cons.inj (maps_transposed.1 hs).1).1
    let others : OtherMeanings := ⟨fun _ v => v, fun _ v => v⟩
    have hrun : LayerStack.absolute.run others [-1 / 2] = [1 / 2] := by decide +kernel
    refine ⟨n, hn, ?_⟩
    rw [hforward others [-1 / 2] hwidth, hrun]
  · have hmeans : LayerStack.Means LayerStack.repeated.layers _ :=
      .cons .input (.cons (.rectified rfl) (.cons .dropout (.cons (.rectifier rfl rfl) .nil)))
    have hnot : ¬∃ n, LayerStack.repeated.network .null = .ok n := by
      rw [(stack_network LayerStack.repeated .null).1]
      rintro ⟨-, steps, k, hsteps, hsentence⟩
      rw [hmeans.unique hsteps] at hsentence
      cases hsentence with
      | cons _ hrest =>
        cases hrest with
        | last hs =>
          obtain ⟨_, _, heq, -⟩ := hs
          cases heq
    obtain ⟨e, he, hreason⟩ := (stack_network LayerStack.repeated .null).2.2 hnot
    obtain ⟨subject, cause, rfl⟩ := hreason ⟨1, .cons hfirst .nil⟩
    exact ⟨subject, cause, he⟩

end ReluMilp
