import Mathlib.Algebra.Order.Ring.Rat
import ReluMilp.Predictor.StepChain
import ReluMilp.Proofs.Actions
import ReluMilp.Proofs.Evaluating

/-!
# The grammar of chains

A chain is read from left to right, with the layers so far in hand and the last one open for a
rectifier.

* `Step.apply`, `StepChain.run` — what the steps do when the predictor is used;
* `Step.Maps`, `Sentence` — the chains that stand for a network: an affine map, then a rectifier and an
  affine map any number of times, each as wide as the one before;
* `Spells` — steps and the layers that they spell; `Spells.collect`, `spells_of_collect` — these are the
  ones that are read;
* `ofLayers_eq_ok`, `network_eq_ok` — when a chain has a network, and which;
* `Spells.foldl_eval` — the layers compute what the steps do;
* `Flaw`, `collect_error`, `ofLayers_error` — what is wrong with the order of steps that have none;
* `chain_network` — the grammar, the meaning and the faults.
-/

namespace ReluMilp

variable {α : Type}

/-! ### Steps in use -/

namespace Step

/-- A step that does something when the predictor is used. -/
def acts : Step α → Bool
  | dropout => false
  | identity => false
  | _ => true

/-- An affine map. -/
def isAffine : Step α → Bool
  | affine _ _ => true
  | _ => false

/-- An affine map from `n` values to `m`: a matrix, and a bias for each of its rows if there is any. -/
def Maps (s : Step α) (n m : Nat) : Prop :=
  ∃ w b, s = affine w b ∧ w.shape = [m, n] ∧ ∀ t ∈ b, t.entries.length = m

/-- What a step makes of a vector when the predictor is used. -/
def apply [Scalar α] : Step α → List α → List α
  | affine w (some b), v => List.zipWith (fun r c => Scalar.dot r v + c) w.rows b.entries
  | affine w none, v => w.rows.map fun r => Scalar.dot r v + 0
  | rectifier, v => v.map Scalar.relu
  | _, v => v

end Step

namespace StepChain

/-- The steps that do something. -/
def acting (c : StepChain α) : List (Step α) := c.steps.filter Step.acts

/-- All steps one after the other. -/
def run [Scalar α] (c : StepChain α) (v : List α) : List α := c.steps.foldl (fun x s => s.apply x) v

end StepChain

/-- Steps that stand for a network with `n` inputs: an affine map, then a rectifier and an affine map any
number of times. -/
inductive Sentence : Nat → List (Step α) → Prop
  | last {s : Step α} {n m : Nat} : s.Maps n m → Sentence n [s]
  | cons {s : Step α} {n m : Nat} {rest : List (Step α)} : s.Maps n m → Sentence m rest →
      Sentence n (s :: .rectifier :: rest)

/-! ### Layers that are spelled -/

variable [Scalar α]

/-- The layer of an affine map. -/
def Step.draft (w : Tensor α) (b : Option (Tensor α)) (a : Activation) : Draft α :=
  ⟨w, b.getD (Draft.zeros w.shape.head?), a⟩

omit [Scalar α] in
/-- Affine maps are among the steps that do something. -/
theorem filter_acting (c : StepChain α) : c.acting.filter Step.isAffine = c.steps.filter Step.isAffine := by
  unfold StepChain.acting
  rw [List.filter_filter]
  refine List.filter_congr fun s _ => ?_
  cases s <;> rfl

/-- Steps and the layers that they spell: a rectifier belongs to the affine map before it. -/
inductive Spells : List (Step α) → List (Draft α) → Prop
  | nil : Spells [] []
  | plain {w : Tensor α} {b : Option (Tensor α)} {rest : List (Step α)} {ds : List (Draft α)} :
      Spells rest ds → Spells (.affine w b :: rest) (Step.draft w b .identity :: ds)
  | rectified {w : Tensor α} {b : Option (Tensor α)} {rest : List (Step α)} {ds : List (Draft α)} :
      Spells rest ds → Spells (.affine w b :: .rectifier :: rest) (Step.draft w b .relu :: ds)

section Reading

variable {kind : String} {acc ds : List (Draft α)} {steps : List (Step α)}

/-- Steps that do nothing are not looked at. -/
theorem collect_acting (kind : String) (acc : List (Draft α)) (steps : List (Step α)) :
    StepChain.collect kind acc steps = StepChain.collect kind acc (steps.filter Step.acts) := by
  induction steps generalizing acc with
  | nil => rfl
  | cons s steps ih =>
    cases s with
    | affine w b => exact ih _
    | rectifier =>
      have hkept : (Step.rectifier :: steps).filter Step.acts = .rectifier :: steps.filter Step.acts := rfl
      rw [hkept]
      unfold StepChain.collect
      cases Draft.rectify? acc with
      | none => rfl
      | some ds => exact ih ds
    | dropout => exact ih acc
    | identity => exact ih acc
    | unreadable fault => rfl
    | other name => rfl

/-- Spelled layers are collected behind those in hand. -/
theorem Spells.collect (h : Spells steps ds) (acc : List (Draft α)) :
    StepChain.collect kind acc steps = .ok (ds.reverse ++ acc) := by
  induction h generalizing acc with
  | nil => rfl
  | plain _ ih =>
    rw [List.reverse_cons, List.append_assoc]
    exact ih _
  | rectified _ ih =>
    rw [List.reverse_cons, List.append_assoc]
    exact ih _

/-- The open layer in hand may get the first rectifier; everything else that is collected is spelled. -/
theorem spells_of_collect (hact : ∀ s ∈ steps, s.acts = true)
    (h : StepChain.collect kind acc steps = .ok ds) :
    (∃ gs, Spells steps gs ∧ ds = gs.reverse ++ acc) ∨
      ∃ d acc' rest gs, steps = .rectifier :: rest ∧ acc = d :: acc' ∧ d.activation = .identity ∧
        Spells rest gs ∧ ds = gs.reverse ++ { d with activation := .relu } :: acc' := by
  induction steps generalizing acc with
  | nil =>
    cases h
    exact .inl ⟨[], .nil, rfl⟩
  | cons s steps ih =>
    obtain ⟨hs, hrest⟩ := List.forall_mem_cons.1 hact
    cases s with
    | affine w b =>
      left
      obtain ⟨gs, hgs, rfl⟩ | ⟨d, acc', rest, gs, rfl, hacc, hd, hgs, rfl⟩ := ih hrest h
      · refine ⟨_, .plain (w := w) (b := b) hgs, ?_⟩
        rw [List.reverse_cons, List.append_assoc]
        rfl
      · cases hacc
        refine ⟨_, .rectified (w := w) (b := b) hgs, ?_⟩
        rw [List.reverse_cons, List.append_assoc]
        rfl
    | rectifier =>
      cases acc with
      | nil => cases h
      | cons d acc' =>
        cases hd : d.activation with
        | relu =>
          simp [StepChain.collect, Draft.rectify?, hd] at h
        | identity =>
          have hcollect : StepChain.collect kind ({ d with activation := .relu } :: acc') steps = .ok ds := by
            simpa [StepChain.collect, Draft.rectify?, hd] using h
          right
          obtain ⟨gs, hgs, rfl⟩ | ⟨d', acc'', rest, gs, -, hacc, hd', -⟩ := ih hrest hcollect
          · exact ⟨d, acc', steps, gs, rfl, rfl, hd, hgs, rfl⟩
          · cases hacc
            cases hd'
    | dropout => cases hs
    | identity => cases hs
    | unreadable fault => cases h
    | other name => cases h

/-- From nothing in hand, exactly what is spelled is collected. -/
theorem collect_eq_ok (hact : ∀ s ∈ steps, s.acts = true) :
    StepChain.collect kind [] steps = .ok ds ↔ Spells steps ds.reverse := by
  constructor
  · intro h
    obtain ⟨gs, hgs, rfl⟩ | ⟨d, acc', rest, gs, -, hacc, -⟩ := spells_of_collect hact h
    · rw [List.append_nil, List.reverse_reverse]
      exact hgs
    · cases hacc
  · intro h
    rw [h.collect [], List.reverse_reverse, List.append_nil]

end Reading

/-! ### Networks of layers -/

omit [Scalar α] in
/-- A draft is made into a layer. -/
def Draft.Makes (d : Draft α) (l : Layer α) : Prop := Layer.ofTensors d.weights d.bias d.activation = .ok l

omit [Scalar α] in
/-- What a layer of tensors is made of. -/
theorem ofTensors_eq_ok {w b : Tensor α} {a : Activation} {l : Layer α} :
    Layer.ofTensors w b a = .ok l ↔ w.shape = [b.entries.length, l.inputs] ∧
      l.neurons = List.zipWith Neuron.mk w.rows b.entries ∧ l.activation = a := by
  unfold Layer.ofTensors
  constructor
  · intro h
    split at h
    · rename_i m n hshape
      split at h
      · rename_i hm
        subst hm
        cases h
        exact ⟨hshape, rfl, rfl⟩
      · cases h
    · cases h
  · rintro ⟨hshape, hneurons, ha⟩
    split
    · rename_i m n hshape'
      rw [hshape] at hshape'
      cases hshape'
      rw [if_pos rfl]
      obtain ⟨inputs, neurons, activation, conform⟩ := l
      cases hneurons
      cases ha
      rfl
    · rename_i hnot
      exact absurd hshape (hnot _ _)

omit [Scalar α] in
/-- A network is made of the layers that it has. -/
theorem ofLayers_eq_ok {ls : List (Layer α)} {name : Value} {n : Network α} :
    Network.ofLayers ls name = .ok n ↔ n.layers = ls ∧ n.name = name := by
  unfold Network.ofLayers Network.layers
  constructor
  · intro h
    split at h
    · cases h
    · rename_i output hlast
      dsimp only at h
      split at h
      · cases h
      · split at h
        · split at h
          · cases h
          · cases h
            exact ⟨(List.dropLast_append_getLast? output hlast), rfl⟩
        · cases h
  · rintro ⟨rfl, rfl⟩
    obtain ⟨name, hidden, output, hrelu, hidentity, hchained⟩ := n
    have hdrop : (hidden ++ [output]).dropLast = hidden := List.dropLast_concat
    dsimp only
    split
    · rename_i hnone
      rw [List.getLast?_concat] at hnone
      cases hnone
    · rename_i last hlast
      rw [List.getLast?_concat] at hlast
      cases hlast
      split
      · rename_i c hbad
        rw [hdrop, (firstUnrectified?_eq_none_iff 1 hidden).2 hrelu] at hbad
        cases hbad
      · rw [dif_pos hidentity]
        split
        · rename_i c hbad
          rw [hdrop, (firstGap?_eq_none_iff 1 _).2 hchained] at hbad
          cases hbad
        · congr 1
          simp only [hdrop]

omit [Scalar α] in
/-- Drafts of which layers are made have the network of these layers, if there is one. -/
theorem draftNetwork_of_makes {ds : List (Draft α)} {ls : List (Layer α)} (name : Value)
    (h : List.Forall₂ Draft.Makes ds.reverse ls) : Draft.network ds name = Network.ofLayers ls name := by
  unfold Draft.network
  rw [mapM_of_forall₂ h]
  rfl

omit [Scalar α] in
/-- The network of drafts that are collected with the last one in front. -/
theorem draftNetwork_eq_ok {ds : List (Draft α)} {name : Value} {n : Network α} :
    Draft.network ds name = .ok n ↔ List.Forall₂ Draft.Makes ds.reverse n.layers ∧ n.name = name := by
  unfold Draft.network
  rw [Except.bind_eq_ok]
  constructor
  · rintro ⟨ls, hls, hn⟩
    obtain ⟨rfl, hname⟩ := ofLayers_eq_ok.1 hn
    exact ⟨mapM_eq_ok hls, hname⟩
  · rintro ⟨hmakes, hname⟩
    exact ⟨n.layers, mapM_of_forall₂ hmakes, ofLayers_eq_ok.2 ⟨rfl, hname⟩⟩

omit [Scalar α] in
theorem chained_cons {l : Layer α} {ls : List (Layer α)} {m : Nat} (hm : l.outputs = m) (hc : Chained ls)
    (hhead : ∀ l' ∈ ls.head?, l'.inputs = m) : Chained (l :: ls) := by
  cases ls with
  | nil => trivial
  | cons l' ls => exact ⟨(hhead l' rfl).trans hm.symm, hc⟩

omit [Scalar α] in
theorem Network.layers_ne_nil (n : Network α) : n.layers ≠ [] :=
  List.append_ne_nil_of_right_ne_nil _ (List.cons_ne_nil _ _)

section Networks

variable {c : StepChain α} {name : Value} {n : Network α} {ds : List (Draft α)} {steps : List (Step α)}
  {ls : List (Layer α)}

/-- A chain has a network if its steps spell drafts of which the layers of the network are made. -/
theorem network_eq_ok : c.network name = .ok n ↔
    n.name = nameOr name (.text (lower c.kind)) ∧
      ∃ ds, Spells c.acting ds ∧ List.Forall₂ Draft.Makes ds n.layers := by
  have hact : ∀ s ∈ c.acting, s.acts = true := fun s hs => (List.mem_filter.1 hs).2
  unfold StepChain.network
  rw [collect_acting, Except.bind_eq_ok]
  constructor
  · rintro ⟨ds, hds, h⟩
    have hspells := (collect_eq_ok hact).1 hds
    cases ds with
    | nil => cases h
    | cons d ds =>
      obtain ⟨hmakes, hname⟩ := draftNetwork_eq_ok.1 h
      exact ⟨hname, _, hspells, hmakes⟩
  · rintro ⟨hname, ds, hspells, hmakes⟩
    refine ⟨ds.reverse, (collect_eq_ok hact).2 (by rwa [List.reverse_reverse]), ?_⟩
    cases hrev : ds.reverse with
    | nil =>
      rw [List.reverse_eq_nil_iff.1 hrev, List.forall₂_nil_left_iff] at hmakes
      exact absurd hmakes n.layers_ne_nil
    | cons d ds' =>
      refine draftNetwork_eq_ok.2 ⟨?_, hname⟩
      rw [← hrev, List.reverse_reverse]
      exact hmakes

/-! ### The grammar -/

section Affine

variable {w : Tensor α} {b : Option (Tensor α)} {a : Activation} {l : Layer α} {m k : Nat}

/-- A missing bias has as many zeros as there are rows. -/
theorem length_bias (h : w.shape = [m, k]) (hb : ∀ t ∈ b, t.entries.length = m) :
    (b.getD (Draft.zeros w.shape.head?)).entries.length = m := by
  cases b with
  | some t => exact hb t rfl
  | none =>
    rw [h]
    exact List.length_replicate

/-- A layer has a neuron for each row and for each bias. -/
theorem outputs_of_makes (h : (Step.draft w b a).Makes l) :
    w.rows.length = l.outputs ∧ (b.getD (Draft.zeros w.shape.head?)).entries.length = l.outputs := by
  obtain ⟨hshape, hneurons, -⟩ := ofTensors_eq_ok.1 h
  have hrows : w.rows.length = (b.getD (Draft.zeros w.shape.head?)).entries.length :=
    length_rows_of_shape hshape
  have hwidth : l.outputs = min w.rows.length (b.getD (Draft.zeros w.shape.head?)).entries.length := by
    unfold Layer.outputs
    rw [hneurons, List.length_zipWith]
    rfl
  rw [hwidth, ← hrows, Nat.min_self]
  exact ⟨rfl, rfl⟩

/-- An affine map whose draft is made into a layer is one from its inputs to its outputs. -/
theorem maps_of_makes (h : (Step.draft w b a).Makes l) : (Step.affine w b).Maps l.inputs l.outputs := by
  have hshape : w.shape = [(b.getD (Draft.zeros w.shape.head?)).entries.length, l.inputs] :=
    (ofTensors_eq_ok.1 h).1
  have hwidth := (outputs_of_makes h).2
  rw [hwidth] at hshape
  refine ⟨w, b, rfl, hshape, fun t ht => ?_⟩
  rw [Option.mem_def.1 ht] at hwidth
  exact hwidth

/-- The layer of an affine map. -/
theorem makes_of_maps (h : (Step.affine w b).Maps k m) (a : Activation) :
    ∃ l, (Step.draft w b a).Makes l ∧ l.inputs = k ∧ l.outputs = m ∧ l.activation = a := by
  obtain ⟨_, _, heq, hshape, hb⟩ := h
  cases heq
  have hlen := length_bias hshape hb
  have hconform := Layer.conform_zipWith (Tensor.length_of_mem_rows (by rw [hshape]; rfl))
    (b.getD (Draft.zeros w.shape.head?)).entries
  refine ⟨⟨k, _, a, hconform⟩, ofTensors_eq_ok.2 ⟨?_, rfl, rfl⟩, rfl, ?_, rfl⟩
  · show w.shape = [(b.getD (Draft.zeros w.shape.head?)).entries.length, k]
    rw [hlen, hshape]
  · show (List.zipWith Neuron.mk w.rows (b.getD (Draft.zeros w.shape.head?)).entries).length = m
    rw [List.length_zipWith, hlen, length_rows_of_shape hshape, Nat.min_self]

end Affine

theorem Spells.eq_nil (h : Spells steps []) : steps = [] := by
  cases h
  rfl

/-- Steps spell one list of drafts at most. -/
theorem Spells.unique {ds' : List (Draft α)} (h : Spells steps ds) (h' : Spells steps ds') : ds = ds' := by
  induction h generalizing ds' with
  | nil =>
    cases h'
    rfl
  | plain hrest ih =>
    cases h' with
    | plain hrest' => rw [ih hrest']
    | rectified _ => cases hrest
  | rectified _ ih =>
    cases h' with
    | plain hrest' => cases hrest'
    | rectified hrest' => rw [ih hrest']

/-- Drafts whose layers make a network are spelled by a sentence. -/
theorem sentence_of_spells (h : Spells steps ds) {l : Layer α} (hmakes : List.Forall₂ Draft.Makes ds (l :: ls))
    (hrelu : ∀ l' ∈ (l :: ls).dropLast, l'.activation = .relu)
    (hidentity : ∀ o ∈ (l :: ls).getLast?, o.activation = .identity) (hchained : Chained (l :: ls)) :
    Sentence l.inputs steps := by
  induction h generalizing l ls with
  | nil => cases hmakes
  | plain hrest ih =>
    cases hmakes with
    | cons hl hmakes =>
      cases ls with
      | nil =>
        rw [List.forall₂_nil_right_iff] at hmakes
        subst hmakes
        rw [hrest.eq_nil]
        exact .last (maps_of_makes hl)
      | cons l' ls =>
        have hact := hrelu l (by rw [List.dropLast_cons_cons]; exact List.mem_cons_self)
        rw [(ofTensors_eq_ok.1 hl).2.2] at hact
        cases hact
  | @rectified w b rest ds hrest ih =>
    cases hmakes with
    | cons hl hmakes =>
      cases ls with
      | nil =>
        have hact := hidentity l rfl
        rw [(ofTensors_eq_ok.1 hl).2.2] at hact
        cases hact
      | cons l' ls =>
        have hsentence : Sentence l'.inputs rest := by
          refine ih hmakes (fun l'' hl'' => hrelu l'' ?_) (fun o ho => hidentity o ?_) hchained.2
          · rw [List.dropLast_cons_cons]
            exact List.mem_cons_of_mem _ hl''
          · rw [List.getLast?_cons_cons]
            exact ho
        rw [hchained.1] at hsentence
        exact .cons (maps_of_makes hl) hsentence

/-- A sentence spells drafts whose layers make a network. -/
theorem Sentence.spells {k : Nat} (h : Sentence k steps) :
    ∃ ds hidden output, Spells steps ds ∧ List.Forall₂ Draft.Makes ds (hidden ++ [output]) ∧
      (∀ l ∈ hidden, l.activation = .relu) ∧ output.activation = .identity ∧
      Chained (hidden ++ [output]) := by
  suffices ∃ ds hidden output, Spells steps ds ∧ List.Forall₂ Draft.Makes ds (hidden ++ [output]) ∧
      (∀ l ∈ hidden, l.activation = .relu) ∧ output.activation = .identity ∧
      Chained (hidden ++ [output]) ∧ ∀ l ∈ (hidden ++ [output]).head?, l.inputs = k by
    obtain ⟨ds, hidden, output, hspells, hmakes, hrelu, hidentity, hchained, -⟩ := this
    exact ⟨ds, hidden, output, hspells, hmakes, hrelu, hidentity, hchained⟩
  induction h with
  | last hs =>
    obtain ⟨w, b, rfl, -⟩ := id hs
    obtain ⟨l, hl, hk, -, ha⟩ := makes_of_maps hs .identity
    refine ⟨_, [], l, .plain .nil, .cons hl .nil, nofun, ha, trivial, ?_⟩
    rintro _ ⟨⟩
    exact hk
  | cons hs _ ih =>
    obtain ⟨w, b, rfl, -⟩ := id hs
    obtain ⟨l, hl, hk, hm, ha⟩ := makes_of_maps hs .relu
    obtain ⟨ds, hidden, output, hspells, hmakes, hrelu, hidentity, hchained, hinputs⟩ := ih
    refine ⟨_, l :: hidden, output, .rectified hspells, .cons hl hmakes,
      List.forall_mem_cons.2 ⟨ha, hrelu⟩, hidentity, chained_cons hm hchained hinputs, ?_⟩
    rintro _ ⟨⟩
    exact hk

/-- Steps that spell the drafts of a network are a sentence as wide as the network. -/
theorem sentence_of_makes (hspells : Spells steps ds) (hmakes : List.Forall₂ Draft.Makes ds n.layers) :
    Sentence n.inputs steps := by
  have hdrop : n.layers.dropLast = n.hidden := List.dropLast_concat
  have hlast : n.layers.getLast? = some n.output := List.getLast?_concat
  have hchained : Chained n.layers := n.chained
  cases hls : n.layers with
  | nil => exact absurd hls n.layers_ne_nil
  | cons l ls =>
    rw [n.inputs_eq hls]
    rw [hls] at hmakes hdrop hlast hchained
    refine sentence_of_spells hspells hmakes ?_ ?_ hchained
    · rw [hdrop]
      exact n.hidden_relu
    · rw [hlast]
      rintro _ ⟨⟩
      exact n.output_identity

/-- The acting steps of a chain with a network are a sentence as wide as the network. -/
theorem sentence_of_network (hn : c.network name = .ok n) : Sentence n.inputs c.acting := by
  obtain ⟨-, ds, hspells, hmakes⟩ := network_eq_ok.1 hn
  exact sentence_of_makes hspells hmakes

/-- A sentence has a network. -/
theorem network_of_sentence {k : Nat} (h : Sentence k c.acting) (name : Value) :
    ∃ n, c.network name = .ok n := by
  obtain ⟨ds, hidden, output, hspells, hmakes, hrelu, hidentity, hchained⟩ := h.spells
  exact ⟨⟨nameOr name (.text (lower c.kind)), hidden, output, hrelu, hidentity, hchained⟩,
    network_eq_ok.2 ⟨rfl, ds, hspells, hmakes⟩⟩

/-! ### What the layers compute -/

/-- The affine values of a layer are what the affine map gives, with zeros for a missing bias. -/
theorem preactivations_of_makes {w : Tensor α} {b : Option (Tensor α)} {a : Activation} {l : Layer α}
    (h : (Step.draft w b a).Makes l) (v : List α) : l.preactivations v = (Step.affine w b).apply v := by
  obtain ⟨hshape, hneurons, -⟩ := ofTensors_eq_ok.1 h
  have hmap : l.preactivations v =
      List.zipWith (fun r c => Scalar.dot r v + c) w.rows (Step.draft w b a).bias.entries := by
    unfold Layer.preactivations
    rw [hneurons, List.map_zipWith]
    rfl
  rw [hmap]
  cases b with
  | some t => rfl
  | none =>
    have hlen : w.rows.length = w.shape.head?.getD 0 := by
      have hrows : w.rows.length = _ := length_rows_of_shape hshape
      have hhead : w.shape.head? = some _ := congrArg List.head? hshape
      rw [hrows, hhead, Option.getD_some]
    show List.zipWith _ w.rows (List.replicate (w.shape.head?.getD 0) 0) = w.rows.map _
    rw [← hlen]
    generalize w.rows = rs
    induction rs with
    | nil => rfl
    | cons r rs ih => exact congrArg (_ :: ·) ih

/-- The layers one after the other compute what the steps do one after the other. -/
theorem Spells.foldl_eval (h : Spells steps ds) (hmakes : List.Forall₂ Draft.Makes ds ls) (v : List α) :
    ls.foldl (fun x l => l.eval x) v = steps.foldl (fun x s => s.apply x) v := by
  induction h generalizing ls v with
  | nil =>
    cases hmakes
    rfl
  | @plain w b rest ds _ ih =>
    cases hmakes with
    | @cons _ l _ _ hl hmakes =>
      have hact := (ofTensors_eq_ok.1 hl).2.2
      have heval : l.eval v = l.preactivations v := by
        unfold Layer.eval
        rw [hact]
        exact List.map_id' _
      rw [List.foldl_cons, List.foldl_cons, ih hmakes, heval, preactivations_of_makes hl]
  | rectified _ ih =>
    cases hmakes with
    | cons hl hmakes =>
      have hact := (ofTensors_eq_ok.1 hl).2.2
      rw [List.foldl_cons, List.foldl_cons, List.foldl_cons, ih hmakes, ← preactivations_of_makes hl]
      unfold Layer.eval
      rw [hact]
      rfl

/-- Steps that do nothing do not matter for what a chain computes. -/
theorem run_eq_acting (c : StepChain α) (v : List α) :
    c.run v = c.acting.foldl (fun x s => s.apply x) v := by
  unfold StepChain.run StepChain.acting
  generalize c.steps = steps
  induction steps generalizing v with
  | nil => rfl
  | cons s steps ih =>
    cases s with
    | affine w b => exact ih _
    | rectifier => exact ih _
    | dropout => exact ih v
    | identity => exact ih v
    | unreadable fault => exact ih v
    | other name => exact ih v

omit [Scalar α] in
theorem map_zipWith_neuron {rs : List (List α)} {bs : List α} (h : rs.length = bs.length) :
    (List.zipWith Neuron.mk rs bs).map (·.weights) = rs ∧ (List.zipWith Neuron.mk rs bs).map (·.bias) = bs := by
  induction rs generalizing bs with
  | nil => exact ⟨rfl, (List.length_eq_zero_iff.1 h.symm).symm⟩
  | cons r rs ih =>
    cases bs with
    | nil => cases h
    | cons b bs =>
      obtain ⟨hws, hbs⟩ := ih (Nat.succ.inj h)
      exact ⟨congrArg (r :: ·) hws, congrArg (b :: ·) hbs⟩

/-- A layer holds the weights of an affine map and its biases, or zeros if it has none. -/
def Layer.Holds (s : Step α) (l : Layer α) : Prop :=
  ∃ w b, s = .affine w b ∧ l.weights = w.rows ∧
    l.bias = b.elim (List.replicate l.outputs 0) fun t => t.entries

theorem holds_of_makes {w : Tensor α} {b : Option (Tensor α)} {a : Activation} {l : Layer α}
    (h : (Step.draft w b a).Makes l) : l.Holds (.affine w b) := by
  obtain ⟨hshape, hneurons, -⟩ := ofTensors_eq_ok.1 h
  obtain ⟨hrows, hbias⟩ := outputs_of_makes h
  obtain ⟨hws, hbs⟩ := map_zipWith_neuron (hrows.trans hbias.symm)
  refine ⟨w, b, rfl, ?_, ?_⟩
  · unfold Layer.weights
    rw [hneurons]
    exact hws
  · unfold Layer.bias
    rw [hneurons]
    refine hbs.trans ?_
    cases b with
    | some t => rfl
    | none =>
      rw [← hbias]
      exact congrArg (List.replicate · 0) List.length_replicate.symm

/-- One layer for each affine map, in the order of the steps. -/
theorem Spells.forall₂_holds (h : Spells steps ds) (hmakes : List.Forall₂ Draft.Makes ds ls) :
    List.Forall₂ Layer.Holds (steps.filter Step.isAffine) ls := by
  induction h generalizing ls with
  | nil =>
    cases hmakes
    exact .nil
  | plain _ ih =>
    cases hmakes with
    | cons hl hmakes => exact .cons (holds_of_makes hl) (ih hmakes)
  | rectified _ ih =>
    cases hmakes with
    | cons hl hmakes => exact .cons (holds_of_makes hl) (ih hmakes)

end Networks

/-! ### Chains without a network -/

omit [Scalar α] in
/-- Affine maps of which each is as wide as the one before; the first reads `k` values. -/
inductive Aligned : Nat → List (Step α) → Prop
  | nil {k : Nat} : Aligned k []
  | cons {s : Step α} {k m : Nat} {rest : List (Step α)} : s.Maps k m → Aligned m rest → Aligned k (s :: rest)

/-- What is wrong with the order of steps: one has no network, a rectifier does not follow an affine map, an affine
map follows another one without a rectifier, a rectifier is the last step, or there is no affine map. -/
inductive Flaw (steps : List (Step α)) : ModelCause → Prop
  | unsupported {name : String} : .other name ∈ steps → Flaw steps (.unsupportedStep name)
  | misplaced {before after : List (Step α)} : steps = before ++ .rectifier :: after →
      (∀ s ∈ before.getLast?, s.isAffine = false) → Flaw steps (.misplacedRectifier "Linear")
  | unrectified {before after : List (Step α)} {s s' : Step α} (k : Nat) :
      steps = before ++ s :: s' :: after → s.isAffine = true → s'.isAffine = true →
      Flaw steps (.hiddenActivation k "identity")
  | trailing {before : List (Step α)} : steps = before ++ [.rectifier] → Flaw steps (.outputActivation "relu")
  | empty : steps = [] → Flaw steps (.noAffineStep "Linear")

section Flaws

variable {kind : String} {acc ds : List (Draft α)} {steps : List (Step α)} {ls : List (Layer α)} {e : Fault}

/-- Why steps are not collected. The first rectifier may also miss an open layer in hand. -/
theorem collect_error (hact : ∀ s ∈ steps, s.acts = true) (hread : ∀ f, .unreadable f ∉ steps)
    (h : StepChain.collect kind acc steps = .error e) :
    (∃ name, .other name ∈ steps ∧ e = .noModel kind (.unsupportedStep name)) ∨
      ∃ before after, steps = before ++ .rectifier :: after ∧
        (before = [] → Draft.rectify? acc = none) ∧ (∀ s ∈ before.getLast?, s.isAffine = false) ∧
        e = .noModel kind (.misplacedRectifier "Linear") := by
  induction steps generalizing acc with
  | nil => cases h
  | cons s steps ih =>
    obtain ⟨hs, hrest⟩ := List.forall_mem_cons.1 hact
    have hread' : ∀ f, .unreadable f ∉ steps := fun f hf => hread f (List.mem_cons_of_mem _ hf)
    cases s with
    | affine w b =>
      obtain ⟨name, hname, he⟩ | ⟨before, after, rfl, hfirst, hlast, he⟩ := ih hrest hread' h
      · exact .inl ⟨name, List.mem_cons_of_mem _ hname, he⟩
      · cases before with
        | nil => cases hfirst rfl
        | cons s before => exact .inr ⟨.affine w b :: s :: before, after, rfl, nofun, hlast, he⟩
    | rectifier =>
      unfold StepChain.collect at h
      cases hr : Draft.rectify? acc with
      | none =>
        rw [hr] at h
        cases h
        exact .inr ⟨[], steps, rfl, fun _ => rfl, nofun, rfl⟩
      | some acc' =>
        rw [hr] at h
        obtain ⟨name, hname, he⟩ | ⟨before, after, rfl, -, hlast, he⟩ := ih hrest hread' h
        · exact .inl ⟨name, List.mem_cons_of_mem _ hname, he⟩
        · refine .inr ⟨.rectifier :: before, after, rfl, nofun, ?_, he⟩
          cases before with
          | nil =>
            rintro _ ⟨⟩
            rfl
          | cons s before => exact hlast
    | dropout => cases hs
    | identity => cases hs
    | unreadable fault => exact absurd List.mem_cons_self (hread fault)
    | other name =>
      cases h
      exact .inl ⟨name, List.mem_cons_self, rfl⟩

omit [Scalar α] in
/-- The first hidden layer without the rectifier is named. -/
theorem firstUnrectified?_eq_some {k : Nat} {cause : ModelCause} (h : firstUnrectified? k ls = some cause) :
    ∃ j, ∃ l ∈ ls, l.activation = .identity ∧ cause = .hiddenActivation j "identity" := by
  induction ls generalizing k with
  | nil => cases h
  | cons l ls ih =>
    unfold firstUnrectified? at h
    split at h
    · obtain ⟨j, l', hl', hcause⟩ := ih h
      exact ⟨j, l', List.mem_cons_of_mem _ hl', hcause⟩
    · rename_i hrelu
      have hid : l.activation = .identity := by
        cases ha : l.activation with
        | relu => exact absurd ha hrelu
        | identity => rfl
      cases h
      refine ⟨k, l, List.mem_cons_self, hid, ?_⟩
      rw [hid]
      rfl

omit [Scalar α] in
/-- Why chained layers are no network. -/
theorem ofLayers_error {name : Value} (hne : ls ≠ []) (hchained : Chained ls)
    (h : Network.ofLayers ls name = .error e) :
    (∃ j, (∃ l ∈ ls.dropLast, l.activation = .identity) ∧
      e = .noModel name.subject (.hiddenActivation j "identity")) ∨
    (∃ o ∈ ls.getLast?, o.activation = .relu) ∧ e = .noModel name.subject (.outputActivation "relu") := by
  unfold Network.ofLayers at h
  split at h
  · rename_i hnone
    exact absurd (List.getLast?_eq_none_iff.1 hnone) hne
  · rename_i output hlast
    dsimp only at h
    split at h
    · rename_i cause hcause
      obtain ⟨j, l, hl, hid, rfl⟩ := firstUnrectified?_eq_some hcause
      cases h
      exact .inl ⟨j, ⟨l, hl, hid⟩, rfl⟩
    · split at h
      · split at h
        · rename_i cause hcause
          rw [List.dropLast_append_getLast? output hlast, (firstGap?_eq_none_iff 1 ls).2 hchained] at hcause
          cases hcause
        · cases h
      · rename_i hid
        have hrelu : output.activation = .relu := by
          cases ha : output.activation with
          | relu => rfl
          | identity => exact absurd ha hid
        cases h
        refine .inr ⟨⟨output, hlast, hrelu⟩, ?_⟩
        rw [hrelu]
        rfl

/-- Drafts of aligned affine maps are made into chained layers. -/
theorem Spells.makes_chained {k : Nat} (h : Spells steps ds) (ha : Aligned k (steps.filter Step.isAffine)) :
    ∃ ls, List.Forall₂ Draft.Makes ds ls ∧ Chained ls ∧ ∀ l ∈ ls.head?, l.inputs = k := by
  induction h generalizing k with
  | nil => exact ⟨[], .nil, trivial, nofun⟩
  | plain _ ih =>
    cases ha with
    | cons hs ha =>
      obtain ⟨l, hl, hk, hm, -⟩ := makes_of_maps hs .identity
      obtain ⟨ls, hmakes, hchained, hhead⟩ := ih ha
      exact ⟨l :: ls, .cons hl hmakes, chained_cons hm hchained hhead, by rintro _ ⟨⟩; exact hk⟩
  | rectified _ ih =>
    cases ha with
    | cons hs ha =>
      obtain ⟨l, hl, hk, hm, -⟩ := makes_of_maps hs .relu
      obtain ⟨ls, hmakes, hchained, hhead⟩ := ih ha
      exact ⟨l :: ls, .cons hl hmakes, chained_cons hm hchained hhead, by rintro _ ⟨⟩; exact hk⟩

/-- A layer before the last one without the rectifier stands for an affine map before another one. -/
theorem Spells.unrectified (h : Spells steps ds) (hmakes : List.Forall₂ Draft.Makes ds ls)
    (hl : ∃ l ∈ ls.dropLast, l.activation = .identity) :
    ∃ before s s' after, steps = before ++ s :: s' :: after ∧ s.isAffine = true ∧ s'.isAffine = true := by
  induction h generalizing ls with
  | nil =>
    cases hmakes
    obtain ⟨l, hmem, -⟩ := hl
    cases hmem
  | @plain w b rest ds hrest ih =>
    cases hmakes with
    | @cons _ l _ ls _ hmakes =>
      cases hrest with
      | nil =>
        cases hmakes
        obtain ⟨l', hmem, -⟩ := hl
        cases hmem
      | plain _ => exact ⟨[], _, _, _, rfl, rfl, rfl⟩
      | rectified _ => exact ⟨[], _, _, _, rfl, rfl, rfl⟩
  | @rectified w b rest ds _ ih =>
    cases hmakes with
    | @cons _ l _ ls hmake hmakes =>
      obtain ⟨l', hmem, hid⟩ := hl
      have hlater : l' ∈ ls.dropLast := by
        cases ls with
        | nil => cases hmem
        | cons l'' ls =>
          rw [List.dropLast_cons_cons] at hmem
          rcases List.mem_cons.1 hmem with rfl | hmem
          · rw [(ofTensors_eq_ok.1 hmake).2.2] at hid
            cases hid
          · exact hmem
      obtain ⟨before, s, s', after, rfl, hs, hs'⟩ := ih hmakes ⟨l', hlater, hid⟩
      exact ⟨.affine w b :: .rectifier :: before, s, s', after, rfl, hs, hs'⟩

/-- A last layer with the rectifier stands for a rectifier as the last step. -/
theorem Spells.trailing (h : Spells steps ds) (hmakes : List.Forall₂ Draft.Makes ds ls)
    (ho : ∃ o ∈ ls.getLast?, o.activation = .relu) : ∃ before, steps = before ++ [.rectifier] := by
  induction h generalizing ls with
  | nil =>
    cases hmakes
    obtain ⟨o, hmem, -⟩ := ho
    cases hmem
  | @plain w b rest ds _ ih =>
    cases hmakes with
    | @cons _ l _ ls hmake hmakes =>
      cases ls with
      | nil =>
        obtain ⟨o, ho, hrelu⟩ := ho
        have hl : l = o := Option.some.inj ho
        rw [← hl, (ofTensors_eq_ok.1 hmake).2.2] at hrelu
        cases hrelu
      | cons l' ls =>
        rw [List.getLast?_cons_cons] at ho
        obtain ⟨before, rfl⟩ := ih hmakes ho
        exact ⟨.affine w b :: before, rfl⟩
  | @rectified w b rest ds hrest ih =>
    cases hmakes with
    | @cons _ l _ ls hmake hmakes =>
      cases ls with
      | nil =>
        rw [List.forall₂_nil_right_iff] at hmakes
        subst hmakes
        rw [hrest.eq_nil]
        exact ⟨[.affine w b], rfl⟩
      | cons l' ls =>
        rw [List.getLast?_cons_cons] at ho
        obtain ⟨before, rfl⟩ := ih hmakes ho
        exact ⟨.affine w b :: .rectifier :: before, rfl⟩

end Flaws

/-- Shapes that conform: every affine map can be read, and each is as wide as the one before. -/
def StepChain.Conforms (c : StepChain α) : Prop :=
  (∀ f, .unreadable f ∉ c.steps) ∧ ∃ k, Aligned k (c.steps.filter Step.isAffine)

/-- A chain without a network whose shapes conform is refused for the order of its steps. -/
theorem network_error {c : StepChain α} {name : Value} {e : Fault} (hc : c.Conforms)
    (h : c.network name = .error e) : ∃ subject cause, e = .noModel subject cause ∧ Flaw c.acting cause := by
  obtain ⟨hread, k, haligned⟩ := hc
  rw [← filter_acting] at haligned
  have hact : ∀ s ∈ c.acting, s.acts = true := fun s hs => (List.mem_filter.1 hs).2
  have hread' : ∀ f, .unreadable f ∉ c.acting := fun f hf => hread f (List.mem_filter.1 hf).1
  unfold StepChain.network at h
  rw [collect_acting] at h
  cases hcollect : StepChain.collect c.kind [] (c.steps.filter Step.acts) with
  | error f =>
    rw [hcollect] at h
    cases h
    obtain ⟨name, hname, rfl⟩ | ⟨before, after, hsteps, -, hlast, rfl⟩ := collect_error hact hread' hcollect
    · exact ⟨_, _, rfl, .unsupported hname⟩
    · exact ⟨_, _, rfl, .misplaced hsteps hlast⟩
  | ok ds =>
    rw [hcollect] at h
    have hspells : Spells c.acting ds.reverse := (collect_eq_ok hact).1 hcollect
    obtain ⟨ls, hmakes, hchained, -⟩ := hspells.makes_chained haligned
    cases hrev : ds with
    | nil =>
      rw [hrev] at h hspells
      cases h
      exact ⟨_, _, rfl, .empty hspells.eq_nil⟩
    | cons d ds' =>
      rw [hrev] at h
      have hlayers : Network.ofLayers ls (nameOr name (.text (lower c.kind))) = .error e := by
        rw [← draftNetwork_of_makes _ hmakes, hrev]
        exact h
      have hne : ls ≠ [] := by
        rintro rfl
        rw [List.forall₂_nil_right_iff, List.reverse_eq_nil_iff, hrev] at hmakes
        cases hmakes
      obtain ⟨j, hl, rfl⟩ | ⟨ho, rfl⟩ := ofLayers_error hne hchained hlayers
      · obtain ⟨before, s, s', after, hsteps, hs, hs'⟩ := hspells.unrectified hmakes hl
        exact ⟨_, _, rfl, .unrectified j hsteps hs hs'⟩
      · obtain ⟨before, hsteps⟩ := hspells.trailing hmakes ho
        exact ⟨_, _, rfl, .trailing hsteps⟩

/-- The grammar of chains. A chain of any steps has a network exactly if, without the steps that do nothing, it
is an affine map and then a rectifier and an affine map any number of times, each map with matching
widths and biases. The network has a layer for each affine map, in order, and computes on every vector
of the right width what the steps do one after the other. If the shapes conform, a chain without a
network is refused because of the order of its steps. -/
theorem chain_network (c : StepChain α) (name : Value) :
    ((∃ n, c.network name = .ok n) ↔ ∃ k, Sentence k c.acting) ∧
    (∀ n, c.network name = .ok n → Sentence n.inputs c.acting ∧
      List.Forall₂ Layer.Holds (c.steps.filter Step.isAffine) n.layers ∧
      ∀ v, v.length = n.inputs → n.forward (.ofVector v) = .ok (.ofVector (c.run v))) ∧
    (c.Conforms → (¬∃ k, Sentence k c.acting) →
      ∃ subject cause, c.network name = .error (.noModel subject cause) ∧ Flaw c.acting cause) := by
  refine ⟨⟨?_, ?_⟩, fun n hn => ⟨sentence_of_network hn, ?_⟩, fun hc hnot => ?_⟩
  · rintro ⟨n, hn⟩
    exact ⟨n.inputs, sentence_of_network hn⟩
  · rintro ⟨k, h⟩
    exact network_of_sentence h name
  · obtain ⟨-, ds, hspells, hmakes⟩ := network_eq_ok.1 hn
    refine ⟨?_, fun v hv => ?_⟩
    · rw [← filter_acting]
      exact hspells.forall₂_holds hmakes
    · rw [n.forward_ofVector hv, run_eq_acting]
      unfold Network.eval
      rw [hspells.foldl_eval hmakes]
  · cases hrun : c.network name with
    | ok n => exact absurd ⟨n.inputs, sentence_of_network hrun⟩ hnot
    | error e =>
      obtain ⟨subject, cause, rfl, hflaw⟩ := network_error hc hrun
      exact ⟨subject, cause, rfl, hflaw⟩

/-- The absolute value as a chain, with steps in between that do nothing. -/
def StepChain.absolute : StepChain Rat :=
  { kind := "Sequential"
    steps := [.affine ⟨[2, 1], [1, -1], rfl⟩ none, .dropout, .rectifier, .identity,
      .affine ⟨[1, 2], [1, 1], rfl⟩ (some (.ofVector [0]))] }

/-- The absolute value with a rectifier at its end. -/
def StepChain.trailing : StepChain Rat :=
  { StepChain.absolute with steps := StepChain.absolute.steps ++ [.rectifier] }

/-- The absolute value has a network, which is right at minus a half. With a rectifier at its end it has none. -/
theorem chain_network_absolute :
    (∃ n, StepChain.absolute.network .null = .ok n ∧
      n.forward (.ofVector [-1 / 2]) = .ok (.ofVector [1 / 2])) ∧
    ∃ subject cause, StepChain.trailing.network .null = .error (.noModel subject cause) := by
  have hfirst : (Step.affine ⟨[2, 1], [1, -1], rfl⟩ none : Step Rat).Maps 1 2 := ⟨_, _, rfl, rfl, nofun⟩
  have hsecond : (Step.affine ⟨[1, 2], [1, 1], rfl⟩ (some (.ofVector [0])) : Step Rat).Maps 2 1 := by
    refine ⟨_, _, rfl, rfl, ?_⟩
    rintro _ ⟨⟩
    rfl
  constructor
  · obtain ⟨n, hn⟩ := (chain_network StepChain.absolute .null).1.2 ⟨1, .cons hfirst (.last hsecond)⟩
    obtain ⟨hsentence, -, hforward⟩ := (chain_network StepChain.absolute .null).2.1 n hn
    have hwidth : ∀ k, Sentence k StepChain.absolute.acting → 1 = k := by
      intro k h
      cases h with
      | cons hs _ =>
        obtain ⟨_, _, heq, hshape, -⟩ := hs
        cases heq
        cases hshape
        rfl
    have hrun : StepChain.absolute.run [-1 / 2] = [1 / 2] := by decide +kernel
    refine ⟨n, hn, ?_⟩
    rw [hforward [-1 / 2] (hwidth _ hsentence), hrun]
  · have hconforms : StepChain.trailing.Conforms :=
      ⟨by simp [StepChain.trailing, StepChain.absolute], 1, .cons hfirst (.cons hsecond .nil)⟩
    have hnot : ¬∃ k, Sentence k StepChain.trailing.acting := by
      rintro ⟨k, h⟩
      cases h with
      | cons _ hrest => cases hrest with
        | cons _ hlast => cases hlast
    obtain ⟨subject, cause, herror, -⟩ := (chain_network StepChain.trailing .null).2.2 hconforms hnot
    exact ⟨subject, cause, herror⟩

end ReluMilp
