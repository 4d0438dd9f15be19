import Mathlib
import ReluMilp.Formulation.Basic

/-!
# Names of parts

Every variable and every row of a network is named after its place in the network, behind the name of the
formulation unless that is empty. The names of formulations may be any texts, also such that look like
names of parts.

* `eq_of_append_cons`, `eq_of_append_cons_last` — texts that are split at their first or their last separator;
* `notMem_toString`, `notMem_shown`, `shown_injective` — numbers and truth values as text, which have no
  separator in them;
* `partName_inj` — the text of a formulation, the title and the place can be read off the name of a part;
* `VarPart`, `RowPart` — the places of variables and rows, with their names, and `VarPart.name_inj`,
  `RowPart.name_inj`.

Mathlib is imported whole for `Nat.repr_injective` and `Int.repr_injective`, which none of its modules gives
alone.
-/

namespace ReluMilp

/-! ### Texts that are put together -/

section Split

variable {β : Type} {c : β} {front front' back back' : List β}

/-- What stands before the first separator and what stands behind it. -/
theorem eq_of_append_cons (hf : c ∉ front) (hf' : c ∉ front') (h : front ++ c :: back = front' ++ c :: back') :
    front = front' ∧ back = back' := by
  induction front generalizing front' with
  | nil =>
    cases front' with
    | nil => exact ⟨rfl, (List.cons.inj h).2⟩
    | cons d front' =>
      obtain ⟨rfl, -⟩ := List.cons.inj h
      exact absurd List.mem_cons_self hf'
  | cons d front ih =>
    cases front' with
    | nil =>
      obtain ⟨rfl, -⟩ := List.cons.inj h
      exact absurd List.mem_cons_self hf
    | cons d' front' =>
      obtain ⟨rfl, hrest⟩ := List.cons.inj h
      obtain ⟨hfront, hback⟩ := ih (List.not_mem_of_not_mem_cons hf) (List.not_mem_of_not_mem_cons hf') hrest
      exact ⟨congrArg (d :: ·) hfront, hback⟩

/-- What stands before the last separator and what stands behind it. -/
theorem eq_of_append_cons_last (hb : c ∉ back) (hb' : c ∉ back')
    (h : front ++ c :: back = front' ++ c :: back') : front = front' ∧ back = back' := by
  have hrev : back.reverse ++ c :: front.reverse = back'.reverse ++ c :: front'.reverse := by
    have := congrArg List.reverse h
    simpa using this
  obtain ⟨hback, hfront⟩ := eq_of_append_cons (by simpa using hb) (by simpa using hb') hrev
  exact ⟨List.reverse_injective hfront, List.reverse_injective hback⟩

end Split

/-! ### Numbers as text -/

section Digits

variable {c : Char}

/-- Only digits stand in a number of a place. -/
theorem notMem_toString (hc : c.isDigit = false) (n : Nat) : c ∉ (toString n).toList := by
  intro hmem
  have hdigits : (toString n).toList = Nat.toDigits 10 n := Nat.toList_repr
  rw [hdigits] at hmem
  have := Nat.isDigit_of_mem_toDigits (by decide) (by decide) hmem
  rw [hc] at this
  cases this

/-- Only digits and a sign stand in a whole number. -/
theorem notMem_toString_int (hc : c.isDigit = false) (hsign : c ≠ '-') (n : Int) :
    c ∉ (toString n).toList := by
  rw [Int.toString_eq_repr, Int.repr_eq_if]
  split
  · exact notMem_toString hc n.toNat
  · rw [String.toList_append, List.mem_append, not_or]
    exact ⟨by simpa using hsign, notMem_toString hc (-n).toNat⟩

/-- The text of a value that counts positions: a whole number or a truth value. -/
theorem notMem_shown {v : Value} (hv : v.index?.isSome) (hc : c.isDigit = false) (hsign : c ≠ '-')
    (htrue : c ∉ "True".toList) (hfalse : c ∉ "False".toList) : c ∉ v.shown.toList := by
  cases v with
  | int n => exact notMem_toString_int hc hsign n
  | bool b =>
    cases b with
    | true => exact htrue
    | false => exact hfalse
  | null | real _ | text _ | list _ | record _ => cases hv

theorem shown_int_ne_bool (n : Int) (b : Bool) : (Value.int n).shown ≠ (Value.bool b).shown := by
  intro h
  have hletter : 'e' ∈ (Value.bool b).shown.toList := by cases b <;> simp [Value.shown]
  rw [← h] at hletter
  exact notMem_toString_int (by decide) (by decide) n hletter

/-- Values that count positions have different texts if they differ. -/
theorem shown_injective {v v' : Value} (hv : v.index?.isSome) (hv' : v'.index?.isSome)
    (h : v.shown = v'.shown) : v = v' := by
  cases v with
  | int n =>
    cases v' with
    | int n' => exact congrArg Value.int (Int.repr_injective h)
    | bool b' => exact absurd h (shown_int_ne_bool n b')
    | null | real _ | text _ | list _ | record _ => cases hv'
  | bool b =>
    cases v' with
    | int n' => exact absurd h.symm (shown_int_ne_bool n' b)
    | bool b' =>
      cases b <;> cases b' <;> first | rfl | simp [Value.shown] at h
    | null | real _ | text _ | list _ | record _ => cases hv'
  | null | real _ | text _ | list _ | record _ => cases hv

end Digits

/-! ### Names behind the name of a formulation -/

/-- The name of a part with a title and what stands behind the first bracket. -/
def partName (name : Value) (title place : String) : String := qualify name (title ++ "[" ++ place)

section PartName

variable {t t' title title' place place' : String}

theorem qualify_append (name : Value) (part more : String) :
    qualify name part ++ more = qualify name (part ++ more) := by
  unfold qualify
  split
  · rw [String.append_assoc]
  · rfl

/-- The text of a name: the part alone, or behind a text and a dot. -/
theorem toList_qualify (t part : String) :
    (qualify (.text t) part).toList = if t = "" then part.toList else t.toList ++ '.' :: part.toList := by
  unfold qualify Value.truth Value.asText
  by_cases ht : t = "" <;> simp [ht]

/-- Names without a dot behind the names of formulations. -/
theorem qualify_inj {part part' : String} (hp : '.' ∉ part.toList) (hp' : '.' ∉ part'.toList)
    (h : qualify (.text t) part = qualify (.text t') part') : t = t' ∧ part = part' := by
  have hlist := congrArg String.toList h
  rw [toList_qualify, toList_qualify] at hlist
  split at hlist <;> split at hlist
  · rename_i ht ht'
    exact ⟨ht.trans ht'.symm, String.toList_inj.1 hlist⟩
  · exact absurd (hlist ▸ List.mem_append_right _ List.mem_cons_self) hp
  · exact absurd (hlist ▸ List.mem_append_right _ List.mem_cons_self) hp'
  · obtain ⟨hname, hpart⟩ := eq_of_append_cons_last hp hp' hlist
    exact ⟨String.toList_inj.1 hname, String.toList_inj.1 hpart⟩

theorem toList_title (title place : String) :
    (title ++ "[" ++ place).toList = title.toList ++ '[' :: place.toList := by
  simp

/-- The text of a formulation, the title and the place can be read off the name of a part. -/
theorem partName_inj (hdot : '.' ∉ title.toList) (hdot' : '.' ∉ title'.toList) (hplace : '.' ∉ place.toList)
    (hplace' : '.' ∉ place'.toList) (htitle : '[' ∉ title.toList) (htitle' : '[' ∉ title'.toList)
    (h : partName (.text t) title place = partName (.text t') title' place') :
    t = t' ∧ title = title' ∧ place = place' := by
  have hpart : ∀ a b : String, '.' ∉ a.toList → '.' ∉ b.toList → '.' ∉ (a ++ "[" ++ b).toList := by
    intro a b ha hb
    simp [ha, hb]
  obtain ⟨ht, hlabel⟩ := qualify_inj (hpart _ _ hdot hplace) (hpart _ _ hdot' hplace') h
  have hlist := congrArg String.toList hlabel
  rw [toList_title, toList_title] at hlist
  obtain ⟨hfront, hback⟩ := eq_of_append_cons htitle htitle' hlist
  exact ⟨ht, String.toList_inj.1 hfront, String.toList_inj.1 hback⟩

/-- No part is without a name. -/
theorem isEmpty_partName (name : Value) (title place : String) : (partName name title place).isEmpty = false := by
  have hmem : '[' ∈ (partName name title place).toList := by
    unfold partName qualify
    split <;> simp
  rw [String.isEmpty_eq_false_iff]
  intro hempty
  rw [hempty] at hmem
  cases hmem

end PartName

/-! ### Places -/

/-- What stands behind the first bracket for a single number. -/
def itemPlace (i : Nat) : String := toString i ++ "]"

/-- What stands behind the first bracket for a layer and a number. -/
def layerPlace (k i : Nat) : String := toString k ++ "][" ++ toString i ++ "]"

/-- What stands behind the first bracket for a neuron as it was given. -/
def neuronPlace (layer neuron : Value) : String := "(" ++ layer.shown ++ "," ++ neuron.shown ++ ")]"

section Places

variable {i i' k k' : Nat} {layer layer' neuron neuron' : Value}

theorem itemPlace_inj (h : itemPlace i = itemPlace i') : i = i' :=
  Nat.repr_injective ((String.append_left_inj "]").1 h)

theorem layerPlace_inj (h : layerPlace k i = layerPlace k' i') : k = k' ∧ i = i' := by
  have hsplit : ∀ a b : Nat, (layerPlace a b).toList =
      (toString a).toList ++ ']' :: '[' :: ((toString b).toList ++ [']']) := by
    intro a b
    simp [layerPlace]
  have hlist := congrArg String.toList h
  rw [hsplit, hsplit] at hlist
  obtain ⟨hk, hrest⟩ := eq_of_append_cons (notMem_toString rfl k) (notMem_toString rfl k') hlist
  have hi := List.append_cancel_right (List.cons.inj hrest).2
  exact ⟨Nat.repr_injective (String.toList_inj.1 hk), Nat.repr_injective (String.toList_inj.1 hi)⟩

theorem neuronPlace_inj (hl : layer.index?.isSome) (hl' : layer'.index?.isSome) (hn : neuron.index?.isSome)
    (hn' : neuron'.index?.isSome) (h : neuronPlace layer neuron = neuronPlace layer' neuron') :
    layer = layer' ∧ neuron = neuron' := by
  have hsplit : ∀ a b : Value, (neuronPlace a b).toList =
      '(' :: (a.shown.toList ++ ',' :: (b.shown.toList ++ [')', ']'])) := by
    intro a b
    simp [neuronPlace]
  have hcomma : ∀ v : Value, v.index?.isSome → ',' ∉ v.shown.toList :=
    fun v hv => notMem_shown hv rfl (by decide) (by simp) (by simp)
  have hlist := congrArg String.toList h
  rw [hsplit, hsplit] at hlist
  obtain ⟨hfront, hback⟩ := eq_of_append_cons (hcomma _ hl) (hcomma _ hl') (List.cons.inj hlist).2
  have hneuron := List.append_cancel_right hback
  exact ⟨shown_injective hl hl' (String.toList_inj.1 hfront),
    shown_injective hn hn' (String.toList_inj.1 hneuron)⟩

theorem dot_notMem_itemPlace (i : Nat) : '.' ∉ (itemPlace i).toList := by
  rw [itemPlace, String.toList_append, List.mem_append, not_or]
  exact ⟨notMem_toString rfl i, by simp⟩

theorem dot_notMem_layerPlace (k i : Nat) : '.' ∉ (layerPlace k i).toList := by
  simp only [layerPlace, String.toList_append, List.mem_append, not_or]
  exact ⟨⟨⟨notMem_toString rfl k, by simp⟩, notMem_toString rfl i⟩, by simp⟩

theorem dot_notMem_neuronPlace (hl : layer.index?.isSome) (hn : neuron.index?.isSome) :
    '.' ∉ (neuronPlace layer neuron).toList := by
  have hdot : ∀ v : Value, v.index?.isSome → '.' ∉ v.shown.toList :=
    fun v hv => notMem_shown hv rfl (by decide) (by simp) (by simp)
  simp [neuronPlace, hdot _ hl, hdot _ hn]

end Places

/-! ### Parts of a network -/

/-- The variables of a neuron. -/
inductive UnitVar where
  | value
  | slack
  | switch
  deriving Repr, DecidableEq

namespace UnitVar

/-- The letter that names start with. -/
def title : UnitVar → String
  | value => "x"
  | slack => "s"
  | switch => "z"

theorem title_injective : Function.Injective title := by
  intro v v' h
  cases v <;> cases v' <;> first | rfl | simp [title] at h

theorem title_plain (v : UnitVar) : '.' ∉ v.title.toList ∧ '[' ∉ v.title.toList := by
  cases v <;> simp [title]

end UnitVar

/-- What a variable is in a network. Layer zero are the inputs. -/
structure VarPart where
  unit : UnitVar
  layer : Nat
  item : Nat
  deriving Repr, DecidableEq

/-- What a row that bounds an input or an output is called. -/
def BoundVector.rowTitle : BoundVector → String
  | inputUpper => "input_ub"
  | inputLower => "input_lb"
  | outputUpper => "output_ub"
  | outputLower => "output_lb"

/-- What a row with a binary variable is called. -/
def Side.rowTitle : Side → String
  | upper => "relu_ub"
  | lower => "relu_lb"

/-- What a row is in a network. A neuron is named as it was given. -/
inductive RowPart where
  | bound (vector : BoundVector) (item : Nat)
  | affine (layer item : Nat)
  | switched (side : Side) (layer neuron : Value)

namespace VarPart

/-- The name of a variable. -/
def name (name : Value) (p : VarPart) : String := partName name p.unit.title (layerPlace p.layer p.item)

/-- Variables of formulations with different texts, or at different places, have different names. -/
theorem name_inj {t t' : String} {p p' : VarPart} (h : p.name (.text t) = p'.name (.text t')) :
    t = t' ∧ p = p' := by
  obtain ⟨v, k, i⟩ := p
  obtain ⟨v', k', i'⟩ := p'
  obtain ⟨ht, htitle, hplace⟩ := partName_inj v.title_plain.1 v'.title_plain.1 (dot_notMem_layerPlace k i)
    (dot_notMem_layerPlace k' i') v.title_plain.2 v'.title_plain.2 h
  obtain ⟨rfl, rfl⟩ := layerPlace_inj hplace
  obtain rfl := UnitVar.title_injective htitle
  exact ⟨ht, rfl⟩

example : (⟨.value, 0, 1⟩ : VarPart).name (.text "a.x[0]") = "a.x[0].x[0][1]" := by decide

end VarPart

namespace RowPart

/-- The title of a row. -/
def title : RowPart → String
  | bound v _ => v.rowTitle
  | affine _ _ => "mix"
  | switched side _ _ => side.rowTitle

/-- What stands behind the first bracket of the name of a row. -/
def place : RowPart → String
  | bound _ i => itemPlace i
  | affine k i => layerPlace k i
  | switched _ layer neuron => neuronPlace layer neuron

/-- The name of a row. -/
def name (name : Value) (p : RowPart) : String := partName name p.title p.place

/-- Layer and neuron, if there are any, count positions. -/
def Plain : RowPart → Prop
  | switched _ layer neuron => layer.index?.isSome ∧ neuron.index?.isSome
  | _ => True

theorem title_plain (p : RowPart) : '.' ∉ p.title.toList ∧ '[' ∉ p.title.toList := by
  cases p with
  | bound v i => cases v <;> simp [title, BoundVector.rowTitle]
  | affine k i => simp [title]
  | switched side layer neuron => cases side <;> simp [title, Side.rowTitle]

theorem dot_notMem_place {p : RowPart} (hp : p.Plain) : '.' ∉ p.place.toList := by
  cases p with
  | bound v i => exact dot_notMem_itemPlace i
  | affine k i => exact dot_notMem_layerPlace k i
  | switched side layer neuron => exact dot_notMem_neuronPlace hp.1 hp.2

/-- Title and place tell what a row is. -/
theorem eq_of_title {p p' : RowPart} (hp : p.Plain) (hp' : p'.Plain) (htitle : p.title = p'.title)
    (hplace : p.place = p'.place) : p = p' := by
  cases p with
  | bound v i =>
    cases p' with
    | bound v' i' =>
      obtain rfl := itemPlace_inj hplace
      cases v <;> cases v' <;> first | rfl | simp [title, BoundVector.rowTitle] at htitle
    | affine k' i' => cases v <;> simp [title, BoundVector.rowTitle] at htitle
    | switched side' layer' neuron' =>
      cases v <;> cases side' <;> simp [title, BoundVector.rowTitle, Side.rowTitle] at htitle
  | affine k i =>
    cases p' with
    | bound v' i' => cases v' <;> simp [title, BoundVector.rowTitle] at htitle
    | affine k' i' =>
      obtain ⟨rfl, rfl⟩ := layerPlace_inj hplace
      rfl
    | switched side' layer' neuron' => cases side' <;> simp [title, Side.rowTitle] at htitle
  | switched side layer neuron =>
    cases p' with
    | bound v' i' =>
      cases v' <;> cases side <;> simp [title, BoundVector.rowTitle, Side.rowTitle] at htitle
    | affine k' i' => cases side <;> simp [title, Side.rowTitle] at htitle
    | switched side' layer' neuron' =>
      obtain ⟨rfl, rfl⟩ := neuronPlace_inj hp.1 hp'.1 hp.2 hp'.2 hplace
      cases side <;> cases side' <;> first | rfl | simp [title, Side.rowTitle] at htitle

/-- Rows of formulations with different texts, or at different places, have different names. -/
theorem name_inj {t t' : String} {p p' : RowPart} (hp : p.Plain) (hp' : p'.Plain)
    (h : p.name (.text t) = p'.name (.text t')) : t = t' ∧ p = p' := by
  obtain ⟨ht, htitle, hplace⟩ := partName_inj p.title_plain.1 p'.title_plain.1 (dot_notMem_place hp)
    (dot_notMem_place hp') p.title_plain.2 p'.title_plain.2 h
  exact ⟨ht, eq_of_title hp hp' htitle hplace⟩

end RowPart

/-! ### The names that a build gives -/

/-- An element of the vector of a layer. -/
theorem layerName_element (name : Value) (title : String) (k i : Nat) :
    layerName name title k ++ "[" ++ toString i ++ "]" = partName name title (layerPlace k i) := by
  unfold layerName partName layerPlace
  simp only [qualify_append, String.append_assoc]
  rfl

/-- An element of a vector of rows that bound inputs or outputs. -/
theorem qualify_element (name : Value) (title : String) (i : Nat) :
    qualify name title ++ "[" ++ toString i ++ "]" = partName name title (itemPlace i) := by
  unfold partName itemPlace
  simp only [qualify_append, String.append_assoc]

/-- The row of a neuron. -/
theorem unitRowName_eq (name : Value) (title : String) (layer neuron : Value) :
    unitRowName name title layer neuron = partName name title (neuronPlace layer neuron) := by
  unfold unitRowName partName neuronPlace
  simp only [String.append_assoc]
  rfl

end ReluMilp
