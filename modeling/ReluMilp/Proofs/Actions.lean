import ReluMilp.Milp.Workspace
import Mathlib.Data.List.Forall2
import Mathlib.Data.List.TakeWhile

/-!
# Runs of actions

What it means that an action succeeds, one statement per action, so that a run of a `do` block comes
apart step by step.

* `Except.bind_eq_ok`, `Except.bind_eq_error`, `mapM_eq_ok`, `mapM_of_forall₂` — computations that may
  fail;
* `Action.bind_eq_ok`, `Action.pure_eq_ok`, `Action.ofExcept_eq_ok` — composition;
* `Action.succeeds` — whether an action succeeds, to be evaluated; `Action.bind_succeeds` — compositions
  that do;
* `Action.update_eq_ok`, `Action.solve_eq_ok`, `Action.onCopy_eq_ok`, `Action.bracket_eq_ok` — single
  actions;
* `Model.withVars`, `Model.withRows` — a model with additions that are taken, and `addVars_eq_ok`,
  `addRows_eq_ok`, `Action.commit_eq_ok`, which add them; `Action.succeeds_commit` — when rows are
  taken.
-/

namespace ReluMilp

/-! ### Faults -/

theorem Except.bind_eq_ok {ε β γ : Type} {e : Except ε β} {f : β → Except ε γ} {c : γ} :
    (e >>= f) = .ok c ↔ ∃ b, e = .ok b ∧ f b = .ok c := by
  cases e with
  | error x =>
    constructor
    · intro h
      cases h
    · rintro ⟨b, hb, -⟩
      cases hb
  | ok b =>
    constructor
    · intro h
      exact ⟨b, rfl, h⟩
    · rintro ⟨b', hb, h⟩
      cases hb
      exact h

/-- A composition fails with the fault of its first computation or with that of the next one. -/
theorem Except.bind_eq_error {ε β γ : Type} {e : Except ε β} {f : β → Except ε γ} {x : ε} :
    (e >>= f) = .error x ↔ e = .error x ∨ ∃ b, e = .ok b ∧ f b = .error x := by
  cases e with
  | error y =>
    constructor
    · intro h
      cases h
      exact .inl rfl
    · rintro (h | ⟨_, hb, -⟩)
      · cases h
        rfl
      · cases hb
  | ok b =>
    constructor
    · exact fun h => .inr ⟨b, rfl, h⟩
    · rintro (h | ⟨_, hb, h⟩)
      · cases h
      · cases hb
        exact h

theorem mapM_eq_ok {β γ : Type} {f : β → Except Fault γ} {bs : List β} {cs : List γ}
    (h : bs.mapM f = .ok cs) : List.Forall₂ (fun b c => f b = .ok c) bs cs := by
  induction bs generalizing cs with
  | nil =>
    cases h
    exact .nil
  | cons b bs ih =>
    rw [List.mapM_cons] at h
    obtain ⟨c, hc, h⟩ := Except.bind_eq_ok.1 h
    obtain ⟨cs', hcs, h⟩ := Except.bind_eq_ok.1 h
    cases h
    exact .cons hc (ih hcs)

theorem mapM_of_forall₂ {β γ : Type} {f : β → Except Fault γ} {bs : List β} {cs : List γ}
    (h : List.Forall₂ (fun b c => f b = .ok c) bs cs) : bs.mapM f = .ok cs := by
  induction h with
  | nil => rfl
  | cons hb _ ih =>
    rw [List.mapM_cons, hb, ih]
    rfl

/-! ### Workspaces -/

namespace Workspace

variable {α : Type}

@[simp] theorem withModel_model (w : Workspace α) (m : Model α) : (w.withModel m).model = m := rfl

@[simp] theorem withWaiting_model (w : Workspace α) (m : Model α) : (w.withWaiting m).model = m := rfl

@[simp] theorem ofModel_model (m : Model α) : (ofModel m).model = m := rfl

@[simp] theorem settled_model (w : Workspace α) : w.settled.model = w.model := by
  unfold settled
  split <;> rfl

@[simp] theorem settled_attempts (w : Workspace α) : w.settled.attempts = w.attempts := by
  unfold settled
  split <;> rfl

end Workspace

/-! ### Composition -/

namespace Action

variable {α β γ : Type}

theorem bind_eq_ok {act : Action α β} {next : β → Action α γ} {w w' : Workspace α} {c : γ} :
    (act >>= next) w = .ok c w' ↔ ∃ b v, act w = .ok b v ∧ next b v = .ok c w' := by
  show EStateM.bind act next w = .ok c w' ↔ _
  unfold EStateM.bind
  cases h : act w with
  | ok b v =>
    constructor
    · intro hn
      exact ⟨b, v, rfl, hn⟩
    · rintro ⟨_, _, hbv, hn⟩
      cases hbv
      exact hn
  | error f v =>
    constructor
    · intro hn
      cases hn
    · rintro ⟨_, _, hbv, _⟩
      cases hbv

/-- A composition goes on with the result of its first action. -/
theorem bind_of_eq_ok {act : Action α β} {next : β → Action α γ} {w v : Workspace α} {b : β}
    (h : act w = .ok b v) : (act >>= next) w = next b v := by
  show EStateM.bind act next w = _
  unfold EStateM.bind
  rw [h]

/-- A composition ends with the fault of its first action. -/
theorem bind_of_eq_error {act : Action α β} {next : β → Action α γ} {w v : Workspace α} {f : Fault}
    (h : act w = .error f v) : (act >>= next) w = .error f v := by
  show EStateM.bind act next w = _
  unfold EStateM.bind
  rw [h]

theorem pure_eq_ok {b c : β} {w w' : Workspace α} :
    (pure b : Action α β) w = .ok c w' ↔ b = c ∧ w = w' := by
  show EStateM.Result.ok b w = .ok c w' ↔ _
  rw [EStateM.Result.ok.injEq]

/-- Whether an action succeeds. -/
def succeeds (act : Action α β) (w : Workspace α) : Bool :=
  match act w with
  | .ok _ _ => true
  | .error _ _ => false

theorem exists_of_succeeds {act : Action α β} {w : Workspace α} (h : act.succeeds w = true) :
    ∃ b w', act w = .ok b w' := by
  unfold succeeds at h
  cases hw : act w with
  | ok b w' => exact ⟨b, w', rfl⟩
  | error f w' =>
    rw [hw] at h
    cases h

/-- A composition succeeds if its first action does and what follows then does. -/
theorem bind_succeeds {act : Action α β} {next : β → Action α γ} {w : Workspace α}
    (h : ∃ b v, act w = .ok b v) (hnext : ∀ b v, act w = .ok b v → ∃ c w', next b v = .ok c w') :
    ∃ c w', (act >>= next) w = .ok c w' := by
  obtain ⟨b, v, hact⟩ := h
  rw [bind_of_eq_ok hact]
  exact hnext b v hact

theorem pure_succeeds (b : β) (w : Workspace α) : ∃ c w', (pure b : Action α β) w = .ok c w' := ⟨b, w, rfl⟩

theorem throw_ne_ok {f : Fault} {b : β} {w w' : Workspace α} :
    (throw f : Action α β) w ≠ .ok b w' := by
  show EStateM.Result.error f w ≠ .ok b w'
  intro h
  cases h

theorem ofExcept_eq_ok {e : Except Fault β} {b : β} {w w' : Workspace α} :
    (ofExcept e : Action α β) w = .ok b w' ↔ e = .ok b ∧ w = w' := by
  cases e with
  | ok a => simp only [ofExcept, EStateM.Result.ok.injEq, Except.ok.injEq]
  | error f => simp only [ofExcept, reduceCtorEq, false_and]

theorem ofExcept_succeeds {e : Except Fault β} {b : β} (h : e = .ok b) (w : Workspace α) :
    ∃ c w', (ofExcept e : Action α β) w = .ok c w' := ⟨b, w, ofExcept_eq_ok.2 ⟨h, rfl⟩⟩

theorem model_eq_ok {m : Model α} {w w' : Workspace α} :
    (model : Action α (Model α)) w = .ok m w' ↔ w.model = m ∧ w = w' := by
  show EStateM.Result.ok w.model w = .ok m w' ↔ _
  rw [EStateM.Result.ok.injEq]

/-! ### Single actions -/

theorem update_eq_ok {f : Model α → Except Fault (Model α × β)} {b : β} {w w' : Workspace α} :
    update f w = .ok b w' ↔ ∃ m, f w.model = .ok (m, b) ∧ w' = w.withModel m := by
  unfold update
  cases f w.model with
  | ok p =>
    obtain ⟨m, c⟩ := p
    simp only [EStateM.Result.ok.injEq, Except.ok.injEq, Prod.mk.injEq]
    constructor
    · rintro ⟨rfl, rfl⟩
      exact ⟨m, ⟨rfl, rfl⟩, rfl⟩
    · rintro ⟨_, ⟨rfl, rfl⟩, rfl⟩
      exact ⟨rfl, rfl⟩
  | error e => simp only [reduceCtorEq, false_and, exists_false]

theorem settle_eq_ok {u : Unit} {w w' : Workspace α} :
    (settle : Action α Unit) w = .ok u w' ↔ w' = w.settled := by
  show EStateM.Result.ok () w.settled = .ok u w' ↔ _
  rw [EStateM.Result.ok.injEq, eq_comm (a := w')]
  simp only [true_and]

theorem dropRows_eq_ok {ids : List RowId} {u : Unit} {w w' : Workspace α} :
    dropRows ids w = .ok u w' ↔ w' = w.withWaiting (w.model.removeRows ids) := by
  show EStateM.Result.ok () _ = .ok u w' ↔ _
  rw [EStateM.Result.ok.injEq, eq_comm (a := w')]
  simp only [true_and]

theorem changeParameters_eq_ok {cs : List Parameters.Change} {u : Unit} {w w' : Workspace α}
    (h : changeParameters cs w = .ok u w') :
    w' = { w with model := { w.model with parameters := w'.model.parameters } } := by
  unfold changeParameters at h
  dsimp only at h
  split at h
  · cases h
    rfl
  · cases h

theorem solve_eq_ok {solver : Solver α} {o : Outcome α} {w w' : Workspace α}
    (h : solve solver w = .ok o w') : solver w.attempts w.model = .ok o ∧ w'.model = w.model := by
  unfold solve at h
  dsimp only at h
  cases hs : solver w.attempts w.model with
  | ok p =>
    rw [hs] at h
    cases h
    exact ⟨rfl, rfl⟩
  | error e =>
    rw [hs] at h
    cases h

theorem solve_attempts {solver : Solver α} {o : Outcome α} {w w' : Workspace α}
    (h : solve solver w = .ok o w') : w'.attempts = w.attempts + 1 := by
  unfold solve at h
  dsimp only at h
  split at h
  · cases h
    rfl
  · cases h

/-- The attempts on a copy count on in the workspace that was copied. -/
theorem onCopy_eq_ok {copy : Model α → Except Fault (Model α)} {act : Action α β} {b : β}
    {w w' : Workspace α} (h : onCopy copy act w = .ok b w') :
    ∃ m v, copy w.model = .ok m ∧ act ⟨m, none, false, w.attempts⟩ = .ok b v ∧
      w' = { w with attempts := v.attempts } := by
  unfold onCopy at h
  cases hc : copy w.model with
  | error f =>
    rw [hc] at h
    cases h
  | ok m =>
    rw [hc] at h
    dsimp only at h
    cases ha : act ⟨m, none, false, w.attempts⟩ with
    | ok c v =>
      rw [ha] at h
      cases h
      exact ⟨m, v, rfl, ha, rfl⟩
    | error f v =>
      rw [ha] at h
      cases h

theorem bracket_eq_ok {before : Model α → Model α} {after : Model α → Model α → Model α}
    {act : Action α β} {b : β} {w w' : Workspace α} (h : bracket before after act w = .ok b w') :
    ∃ v, act (w.withModel (before w.model)) = .ok b v ∧
      w' = v.withModel (after w.model v.model) := by
  unfold bracket at h
  cases ha : act (w.withModel (before w.model)) with
  | ok c v =>
    rw [ha] at h
    cases h
    exact ⟨v, rfl, rfl⟩
  | error f v =>
    rw [ha] at h
    cases h

end Action

/-! ### Additions -/

variable {α : Type} [Scalar α]

/-- The model with new variables of one kind. -/
def Model.withVars (m : Model α) (names : List String) (kind : VarKind) (lower upper : Limit α) :
    Model α :=
  { m with
    vars := m.vars ++ number (fun k name =>
      ⟨m.nextVar + k, nameOrNumber "C" (m.nextVar + k) name, kind, lower, upper⟩) 0 names
    nextVar := m.nextVar + names.length }

/-- The model with new rows. -/
def Model.withRows (m : Model α) (drafts : List (RowDraft α)) : Model α :=
  { m with
    rows := m.rows ++ number (fun k d => RowDraft.toRow (m.nextRow + k) d) 0 drafts
    nextRow := m.nextRow + drafts.length }

omit [Scalar α] in
theorem addVars_eq_ok {m m' : Model α} {names : List String} {kind : VarKind} {lower upper : Limit α}
    {ids : List VarId} (h : m.addVars names kind lower upper = .ok (m', ids)) :
    m' = m.withVars names kind lower upper ∧ ids = List.range' m.nextVar names.length := by
  unfold Model.addVars at h
  split at h
  · cases h
    exact ⟨rfl, rfl⟩
  · cases h

theorem addRows_eq_ok {m m' : Model α} {drafts : List (RowDraft α)} {ids : List RowId}
    (h : m.addRows drafts = .ok (m', ids)) :
    m' = m.withRows drafts ∧ ids = List.range' m.nextRow drafts.length := by
  unfold Model.addRows at h
  split at h
  · cases h
    exact ⟨rfl, rfl⟩
  · cases h

/-- Rows that are committed are all taken, in the order of their blocks. -/
theorem Action.commit_eq_ok {blocks : List (RowBlock α)} {ids : List RowId} {w w' : Workspace α}
    (h : Action.commit blocks w = .ok ids w') :
    w'.model = w.model.withRows (blocks.flatMap (·.rows)) ∧
      ids = List.range' w.model.nextRow (blocks.flatMap (·.rows)).length := by
  unfold Action.commit at h
  cases hs : Action.stage blocks w with
  | error f v =>
    rw [hs] at h
    cases h
  | ok is v =>
    rw [hs] at h
    cases h
    unfold Action.stage at hs
    cases ha : w.model.addRows ((Action.taken blocks).flatMap (·.rows)) with
    | error f =>
      rw [ha] at hs
      cases hs
    | ok p =>
      obtain ⟨m, is⟩ := p
      rw [ha] at hs
      dsimp only at hs
      split at hs
      · cases hs
      · rename_i hlen
        have htaken : Action.taken blocks = blocks :=
          (List.takeWhile_prefix _).eq_of_length_le (Nat.not_lt.1 hlen)
        rw [htaken] at ha
        cases hs
        exact addRows_eq_ok ha

/-- Whether rows that are given together are all taken, which no workspace matters for. -/
def Action.accepts (blocks : List (RowBlock α)) : Bool :=
  (blocks.all fun b => !b.checked || b.rows.all fun r => finiteTerms r.terms) &&
    (blocks.flatMap (·.rows)).all RowDraft.acceptable

theorem Action.succeeds_commit (blocks : List (RowBlock α)) (w : Workspace α) :
    (Action.commit blocks).succeeds w = Action.accepts blocks := by
  unfold Action.succeeds Action.commit Action.stage Action.accepts Model.addRows
  cases hfinite : blocks.all fun b => !b.checked || b.rows.all fun r => finiteTerms r.terms with
  | true =>
    have htaken : Action.taken blocks = blocks :=
      List.takeWhile_eq_self_iff.2 fun b hb => List.all_eq_true.1 hfinite b hb
    rw [htaken, Bool.true_and]
    cases hrows : (blocks.flatMap (·.rows)).all RowDraft.acceptable with
    | true => simp only [if_true, Nat.lt_irrefl, if_false]
    | false => simp only [Bool.false_eq_true, if_false]
  | false =>
    have hshort : (Action.taken blocks).length < blocks.length := by
      refine Nat.lt_of_le_of_ne (List.takeWhile_prefix _).length_le fun hlen => ?_
      have htaken := (List.takeWhile_prefix _).eq_of_length hlen
      have hall := List.all_eq_true.2 fun b hb => List.takeWhile_eq_self_iff.1 htaken b hb
      rw [hall] at hfinite
      cases hfinite
    rw [Bool.false_and]
    cases hrows : ((Action.taken blocks).flatMap (·.rows)).all RowDraft.acceptable with
    | true => simp only [if_true, hshort]
    | false => simp only [Bool.false_eq_true, if_false]

end ReluMilp
