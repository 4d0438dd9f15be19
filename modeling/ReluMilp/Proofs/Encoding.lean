import ReluMilp.Proofs.Container

/-!
# Where the parts of a network stand in a model

* `Forall₃` — a relation along three lists of one length;
* `Layerwise`, `Along` — a relation at every hidden neuron, its unit and its interval, which sees the
  variables that the neuron reads;
* `HiddenUnit.Stands` — the variables of a neuron, and its rows for an interval, are in a model;
* `Body.Stands` — the same for a whole network and a table of intervals;
* `Model.Keeps` — a model with the same variables and with all but some rows, in which what stands
  elsewhere still stands.
-/

namespace ReluMilp

/-! ### Relations along lists -/

/-- Three lists of one length whose items are related. -/
inductive Forall₃ {β γ δ : Type} (R : β → γ → δ → Prop) : List β → List γ → List δ → Prop
  | nil : Forall₃ R [] [] []
  | cons {b : β} {c : γ} {d : δ} {bs : List β} {cs : List γ} {ds : List δ} :
      R b c d → Forall₃ R bs cs ds → Forall₃ R (b :: bs) (c :: cs) (d :: ds)

namespace Forall₃

variable {β γ δ : Type} {R S : β → γ → δ → Prop} {bs : List β} {cs : List γ} {ds : List δ}

theorem length_middle (h : Forall₃ R bs cs ds) : cs.length = bs.length := by
  induction h with
  | nil => rfl
  | cons _ _ ih => rw [List.length_cons, List.length_cons, ih]

theorem length_right (h : Forall₃ R bs cs ds) : ds.length = bs.length := by
  induction h with
  | nil => rfl
  | cons _ _ ih => rw [List.length_cons, List.length_cons, ih]

theorem of_getElem? (hc : cs.length = bs.length) (hd : ds.length = bs.length)
    (h : ∀ (i : Nat) b c d, bs[i]? = some b → cs[i]? = some c → ds[i]? = some d → R b c d) :
    Forall₃ R bs cs ds := by
  induction bs generalizing cs ds with
  | nil =>
    rw [List.length_nil, List.length_eq_zero_iff] at hc hd
    rw [hc, hd]
    exact .nil
  | cons b bs ih =>
    cases cs with
    | nil => cases hc
    | cons c cs =>
      cases ds with
      | nil => cases hd
      | cons d ds =>
        refine .cons (h 0 b c d rfl rfl rfl) (ih (Nat.succ.inj hc) (Nat.succ.inj hd) ?_)
        intro i b' c' d' hb hc hd
        exact h (i + 1) b' c' d' hb hc hd

theorem imp (h : Forall₃ R bs cs ds) (f : ∀ b c d, c ∈ cs → R b c d → S b c d) :
    Forall₃ S bs cs ds := by
  induction h with
  | nil => exact .nil
  | cons hr _ ih =>
    refine .cons (f _ _ _ List.mem_cons_self hr) (ih ?_)
    intro b c d hc
    exact f b c d (List.mem_cons_of_mem _ hc)

theorem imp_right (h : Forall₃ R bs cs ds) (f : ∀ b c d, d ∈ ds → R b c d → S b c d) :
    Forall₃ S bs cs ds := by
  induction h with
  | nil => exact .nil
  | cons hr _ ih =>
    refine .cons (f _ _ _ List.mem_cons_self hr) (ih ?_)
    intro b c d hd
    exact f b c d (List.mem_cons_of_mem _ hd)

theorem exists_of_mem {c : γ} (h : Forall₃ R bs cs ds) (hc : c ∈ cs) : ∃ b d, R b c d := by
  induction h with
  | nil => cases hc
  | cons hr _ ih =>
    rcases List.mem_cons.1 hc with rfl | hc
    · exact ⟨_, _, hr⟩
    · exact ih hc

theorem exists_of_mem_right {d : δ} (h : Forall₃ R bs cs ds) (hd : d ∈ ds) : ∃ b, ∃ c ∈ cs, R b c d := by
  induction h with
  | nil => cases hd
  | cons hr _ ih =>
    rcases List.mem_cons.1 hd with rfl | hd
    · exact ⟨_, _, List.mem_cons_self, hr⟩
    · obtain ⟨b, c, hc, hr⟩ := ih hd
      exact ⟨b, c, List.mem_cons_of_mem _ hc, hr⟩

theorem forall₂ {Q : β → γ → Prop} (h : Forall₃ R bs cs ds) (f : ∀ b c d, R b c d → Q b c) :
    List.Forall₂ Q bs cs := by
  induction h with
  | nil => exact .nil
  | cons hr _ ih => exact .cons (f _ _ _ hr) ih

theorem forall₂_right {Q : γ → δ → Prop} (h : Forall₃ R bs cs ds) (f : ∀ b c d, R b c d → Q c d) :
    List.Forall₂ Q cs ds := by
  induction h with
  | nil => exact .nil
  | cons hr _ ih => exact .cons (f _ _ _ hr) ih

/-- A property of the items in the middle that is the same as another relation. -/
theorem forall_middle_iff {P : γ → Prop} (h : Forall₃ R bs cs ds)
    (f : ∀ b c d, R b c d → (P c ↔ S b c d)) : (∀ c ∈ cs, P c) ↔ Forall₃ S bs cs ds := by
  induction h with
  | nil => exact ⟨fun _ => .nil, fun _ c hc => absurd hc List.not_mem_nil⟩
  | cons hr _ ih =>
    rw [List.forall_mem_cons, f _ _ _ hr, ih]
    constructor
    · rintro ⟨hs, hss⟩
      exact .cons hs hss
    · rintro (_ | ⟨hs, hss⟩)
      exact ⟨hs, hss⟩

/-- A property of the items on the right that is the same as a relation of the others. -/
theorem forall_right_iff {P : δ → Prop} {Q : β → γ → Prop} (h : Forall₃ R bs cs ds)
    (f : ∀ b c d, R b c d → (P d ↔ Q b c)) : (∀ d ∈ ds, P d) ↔ List.Forall₂ Q bs cs := by
  induction h with
  | nil => exact ⟨fun _ => .nil, fun _ d hd => absurd hd List.not_mem_nil⟩
  | cons hr _ ih => rw [List.forall_mem_cons, f _ _ _ hr, ih, List.forall₂_cons]

theorem imp_getElem? (h : Forall₃ R bs cs ds)
    (f : ∀ (j : Nat) b c d, cs[j]? = some c → R b c d → S b c d) : Forall₃ S bs cs ds := by
  induction h with
  | nil => exact .nil
  | cons hr _ ih => exact .cons (f 0 _ _ _ rfl hr) (ih fun j b c d hc => f (j + 1) b c d hc)

/-- Other items at one position. -/
theorem set {i : Nat} {c c' : γ} {d' : δ} (h : Forall₃ R bs cs ds) (hc : cs[i]? = some c)
    (h₁ : ∀ b d, R b c d → S b c' d')
    (h₂ : ∀ (j : Nat) b e d, j ≠ i → cs[j]? = some e → R b e d → S b e d) :
    Forall₃ S bs (cs.set i c') (ds.set i d') := by
  induction h generalizing i with
  | nil => cases hc
  | cons hr hrest ih =>
    cases i with
    | zero =>
      cases hc
      exact .cons (h₁ _ _ hr)
        (hrest.imp_getElem? fun j b e d he => h₂ (j + 1) b e d (Nat.succ_ne_zero j) he)
    | succ i =>
      refine .cons (h₂ 0 _ _ _ (Nat.succ_ne_zero i).symm rfl hr) (ih hc ?_)
      intro j b e d hj he
      exact h₂ (j + 1) b e d (fun h => hj (Nat.succ.inj h)) he

end Forall₃

theorem forall₂_imp_mem {β γ : Type} {Q R : β → γ → Prop} {bs : List β} {cs : List γ}
    (h : List.Forall₂ Q bs cs) (f : ∀ b c, c ∈ cs → Q b c → R b c) : List.Forall₂ R bs cs := by
  induction h with
  | nil => exact .nil
  | cons hq _ ih =>
    refine .cons (f _ _ List.mem_cons_self hq) (ih fun b c hc => ?_)
    exact f b c (List.mem_cons_of_mem _ hc)

theorem forall₂_trans {β γ δ : Type} {Q : β → γ → Prop} {R : γ → δ → Prop} {S : β → δ → Prop}
    {bs : List β} {cs : List γ} {ds : List δ} (f : ∀ b c d, Q b c → R c d → S b d)
    (h : List.Forall₂ Q bs cs) (h' : List.Forall₂ R cs ds) : List.Forall₂ S bs ds := by
  induction h generalizing ds with
  | nil =>
    cases h'
    exact .nil
  | cons hq _ ih =>
    cases h' with
    | cons hr hrs => exact .cons (f _ _ _ hq hr) (ih hrs)

theorem exists_of_forall₂ {β γ : Type} {R : β → γ → Prop} {bs : List β} {cs : List γ} {c : γ}
    (h : List.Forall₂ R bs cs) (hc : c ∈ cs) : ∃ b, R b c := by
  induction h with
  | nil => cases hc
  | cons hr _ ih =>
    rcases List.mem_cons.1 hc with rfl | hc
    · exact ⟨_, hr⟩
    · exact ih hc

/-! ### Relations at every hidden neuron -/

variable {α : Type}

/-- The variables of the last of some layers, those of `prev` if there is none. -/
def lastVars : List VarId → List (List HiddenUnit) → List VarId
  | prev, [] => prev
  | _, us :: uss => lastVars (us.map (·.x)) uss

/-- A relation at every neuron of hidden layers: the variables it reads, the neuron, its unit and its
interval. -/
inductive Layerwise (R : List VarId → Neuron α → HiddenUnit → Interval α → Prop) :
    List VarId → List (Layer α) → List (List HiddenUnit) → List (List (Interval α)) → Prop
  | nil {prev : List VarId} : Layerwise R prev [] [] []
  | cons {prev : List VarId} {l : Layer α} {us : List HiddenUnit} {is : List (Interval α)}
      {ls : List (Layer α)} {uss : List (List HiddenUnit)} {iss : List (List (Interval α))} :
      Forall₃ (R prev) l.neurons us is → Layerwise R (us.map (·.x)) ls uss iss →
      Layerwise R prev (l :: ls) (us :: uss) (is :: iss)

/-- A relation at every neuron of hidden layers: the variables it reads, the neuron and its unit. -/
inductive Along (R : List VarId → Neuron α → HiddenUnit → Prop) :
    List VarId → List (Layer α) → List (List HiddenUnit) → Prop
  | nil {prev : List VarId} : Along R prev [] []
  | cons {prev : List VarId} {l : Layer α} {us : List HiddenUnit} {ls : List (Layer α)}
      {uss : List (List HiddenUnit)} :
      List.Forall₂ (R prev) l.neurons us → Along R (us.map (·.x)) ls uss →
      Along R prev (l :: ls) (us :: uss)

theorem Along.imp {Q R : List VarId → Neuron α → HiddenUnit → Prop} {prev : List VarId}
    {ls : List (Layer α)} {uss : List (List HiddenUnit)} (h : Along Q prev ls uss)
    (f : ∀ p n u, Q p n u → R p n u) : Along R prev ls uss := by
  induction h with
  | nil => exact .nil
  | cons hl _ ih => exact .cons (hl.imp fun n u => f _ n u) ih

theorem Along.exists_of_mem {R : List VarId → Neuron α → HiddenUnit → Prop} {prev : List VarId}
    {ls : List (Layer α)} {uss : List (List HiddenUnit)} {u : HiddenUnit} (h : Along R prev ls uss)
    (hu : u ∈ uss.flatten) : ∃ p n, R p n u := by
  induction h with
  | nil => exact absurd hu List.not_mem_nil
  | cons hl _ ih =>
    rw [List.flatten_cons] at hu
    rcases List.mem_append.1 hu with hu | hu
    · obtain ⟨n, h⟩ := exists_of_forall₂ hl hu
      exact ⟨_, n, h⟩
    · exact ih hu

namespace Layerwise

variable {R S : List VarId → Neuron α → HiddenUnit → Interval α → Prop} {prev : List VarId}
  {ls : List (Layer α)} {uss : List (List HiddenUnit)} {iss : List (List (Interval α))}

theorem imp (h : Layerwise R prev ls uss iss)
    (f : ∀ p n u i, u ∈ uss.flatten → R p n u i → S p n u i) : Layerwise S prev ls uss iss := by
  induction h with
  | nil => exact .nil
  | cons hl _ ih =>
    refine .cons (hl.imp fun n u i hu => f _ n u i ?_) (ih ?_)
    · rw [List.flatten_cons]
      exact List.mem_append_left _ hu
    · intro p n u i hu
      refine f p n u i ?_
      rw [List.flatten_cons]
      exact List.mem_append_right _ hu

theorem along {Q : List VarId → Neuron α → HiddenUnit → Prop} (h : Layerwise R prev ls uss iss)
    (f : ∀ p n u i, R p n u i → Q p n u) : Along Q prev ls uss := by
  induction h with
  | nil => exact .nil
  | cons hl _ ih => exact .cons (hl.forall₂ fun n u i => f _ n u i) ih

/-- What follows for the units and the intervals alone. -/
theorem forall₂ {Q : HiddenUnit → Interval α → Prop} (h : Layerwise R prev ls uss iss)
    (f : ∀ p n u i, R p n u i → Q u i) : List.Forall₂ (List.Forall₂ Q) uss iss := by
  induction h with
  | nil => exact .nil
  | cons hl _ ih => exact .cons (hl.forall₂_right fun n u i => f _ n u i) ih

theorem exists_of_mem {u : HiddenUnit} (h : Layerwise R prev ls uss iss) (hu : u ∈ uss.flatten) :
    ∃ p n i, R p n u i := by
  induction h with
  | nil => exact absurd hu List.not_mem_nil
  | cons hl _ ih =>
    rw [List.flatten_cons] at hu
    rcases List.mem_append.1 hu with hu | hu
    · obtain ⟨n, i, h⟩ := hl.exists_of_mem hu
      exact ⟨_, n, i, h⟩
    · exact ih hu

/-- The widths of the layers. -/
theorem length_eq (h : Layerwise R prev ls uss iss) :
    uss.map List.length = ls.map (·.outputs) ∧ iss.map List.length = ls.map (·.outputs) := by
  induction h with
  | nil => exact ⟨rfl, rfl⟩
  | cons hl _ ih =>
    rw [List.map_cons, List.map_cons, List.map_cons, ih.1, ih.2, hl.length_middle, hl.length_right]
    exact ⟨rfl, rfl⟩

end Layerwise

/-! ### Parts of a body -/

theorem mem_unitVars {us : List HiddenUnit} {id : VarId} :
    id ∈ Body.unitVars us ↔ ∃ u ∈ us, id = u.x ∨ id = u.s ∨ id = u.z := by
  simp only [Body.unitVars, List.mem_append, List.mem_map]
  grind

theorem mem_unitRows {us : List HiddenUnit} {id : RowId} :
    id ∈ Body.unitRows us ↔ ∃ u ∈ us, id = u.affineRow ∨ id = u.upperRow ∨ id = u.lowerRow := by
  simp only [Body.unitRows, List.mem_append, List.mem_map]
  grind

/-- The variables of a hidden neuron. -/
def HiddenUnit.vars (u : HiddenUnit) : List VarId := [u.x, u.s, u.z]

/-- The rows of a hidden neuron. -/
def HiddenUnit.rows (u : HiddenUnit) : List RowId := [u.affineRow, u.upperRow, u.lowerRow]

theorem mem_unitVars_iff {us : List HiddenUnit} {id : VarId} :
    id ∈ Body.unitVars us ↔ ∃ u ∈ us, id ∈ u.vars := by
  simp only [mem_unitVars, HiddenUnit.vars, List.mem_cons, List.not_mem_nil, or_false]

theorem mem_unitRows_iff {us : List HiddenUnit} {id : RowId} :
    id ∈ Body.unitRows us ↔ ∃ u ∈ us, id ∈ u.rows := by
  simp only [mem_unitRows, HiddenUnit.rows, List.mem_cons, List.not_mem_nil, or_false]

theorem mem_xs_unitVars {us : List HiddenUnit} {id : VarId} (h : id ∈ us.map (·.x)) :
    id ∈ Body.unitVars us := by
  unfold Body.unitVars
  rw [List.append_assoc]
  exact List.mem_append_left _ h

variable [Scalar α]

/-- The variables of a hidden neuron are in a model, and so are its rows, made for an interval. -/
structure HiddenUnit.Stands (m : Model α) (prev : List VarId) (n : Neuron α) (u : HiddenUnit)
    (i : Interval α) : Prop where
  value : ∃ name, ⟨u.x, name, .continuous, .finite 0, .posInf⟩ ∈ m.vars
  slack : ∃ name, ⟨u.s, name, .continuous, .finite 0, .posInf⟩ ∈ m.vars
  switch : ∃ name, ⟨u.z, name, .binary, .finite 0, .finite 1⟩ ∈ m.vars
  upper : ∃ name, (upperDraft name u.x u.z i.upper).toRow u.upperRow ∈ m.rows
  lower : ∃ name, (lowerDraft name u.s u.z i.lower).toRow u.lowerRow ∈ m.rows
  affine : ∃ name, (hiddenDraft name u.x u.s n prev).toRow u.affineRow ∈ m.rows

/-- An output neuron: its row is in a model. -/
def OutputStands (m : Model α) (prev : List VarId) (n : Neuron α) (x : VarId) (row : RowId) : Prop :=
  ∃ name, (outputDraft name x n prev).toRow row ∈ m.rows

/-- Variables without bounds are in a model. -/
def FreeStand (m : Model α) (ids : List VarId) : Prop :=
  ∀ id ∈ ids, ∃ name, ⟨id, name, .continuous, .negInf, .posInf⟩ ∈ m.vars

/-- A network stands in a model, its hidden rows made for the intervals of a table. -/
structure Body.Stands (m : Model α) (n : Network α) (b : Body) (table : List (List (Interval α))) :
    Prop where
  inputs : FreeStand m b.inputs
  inputs_length : b.inputs.length = n.inputs
  hidden : Layerwise (HiddenUnit.Stands m) b.inputs n.hidden b.hidden table
  outputs : FreeStand m b.outputs
  output_rows : Forall₃ (OutputStands m (lastVars b.inputs b.hidden)) n.output.neurons b.outputs
    b.outputRows
  vars_nodup : b.vars.Nodup
  rows_nodup : b.rows.Nodup
  rows_lt : ∀ id ∈ b.rows, id < m.nextRow

/-! ### Models that keep rows -/

omit [Scalar α] in
/-- The second model has the variables of the first, and its rows but for those with some numbers. -/
structure Model.Keeps (m m' : Model α) (gone : List RowId) : Prop where
  vars : ∀ v ∈ m.vars, v ∈ m'.vars
  rows : ∀ r ∈ m.rows, r.id ∉ gone → r ∈ m'.rows

omit [Scalar α] in
theorem Model.Keeps.refl (m : Model α) (gone : List RowId) : m.Keeps m gone :=
  ⟨fun _ hv => hv, fun _ hr _ => hr⟩

omit [Scalar α] in
theorem Model.Keeps.trans {m m₁ m₂ : Model α} {gone gone' : List RowId} (h : m.Keeps m₁ gone)
    (h' : m₁.Keeps m₂ gone') : m.Keeps m₂ (gone ++ gone') where
  vars := fun v hv => h'.vars v (h.vars v hv)
  rows := by
    intro r hr hid
    rw [List.mem_append, not_or] at hid
    exact h'.rows r (h.rows r hr hid.1) hid.2

omit [Scalar α] in
theorem Model.Grown.keeps {m m' : Model α} {vs : List (Variable α)} {rs : List (Row α)}
    (h : m.Grown m' vs rs) : m.Keeps m' [] where
  vars := by
    intro v hv
    rw [h.vars]
    exact List.mem_append_left _ hv
  rows := by
    intro r hr _
    rw [h.rows]
    exact List.mem_append_left _ hr

theorem HiddenUnit.Stands.keep {m m' : Model α} {gone : List RowId} {prev : List VarId} {n : Neuron α}
    {u : HiddenUnit} {i : Interval α} (h : u.Stands m prev n i) (hk : m.Keeps m' gone)
    (hu : u.upperRow ∉ gone) (hl : u.lowerRow ∉ gone) (ha : u.affineRow ∉ gone) :
    u.Stands m' prev n i where
  value := h.value.imp fun _ => hk.vars _
  slack := h.slack.imp fun _ => hk.vars _
  switch := h.switch.imp fun _ => hk.vars _
  upper := h.upper.imp fun _ hr => hk.rows _ hr hu
  lower := h.lower.imp fun _ hr => hk.rows _ hr hl
  affine := h.affine.imp fun _ hr => hk.rows _ hr ha

omit [Scalar α] in
theorem FreeStand.keep {m m' : Model α} {gone : List RowId} {ids : List VarId} (h : FreeStand m ids)
    (hk : m.Keeps m' gone) : FreeStand m' ids :=
  fun id hid => (h id hid).imp fun _ => hk.vars _

end ReluMilp
