import ReluMilp.Proofs.Revisions
import ReluMilp.Proofs.Soundness
import ReluMilp.Proofs.Tables
import ReluMilp.Proofs.Undoing

/-!
# Replacements that fail

The rows of a neuron are gone before the bounds are looked at, so that it matters when a replacement
fails.

* `revise_unplaced` — without such a neuron nothing happens;
* `Formulation.Admits` — bounds of which rows are made; `renewRows_end` — what becomes of bounds that are none;
* `Formulation.Torn` — what a late refusal leaves: one neuron without its rows;
* `RevisionEnd`, `revise_end` — the ends of a replacement, one for each kind of bounds;
* `Calls`, `Calls.revisions` — replacements and early refusals one after the other;
* `replacements_intact` — the ends, and the neurons after any number of such calls;
* `replacements_torn_magnitude` — an infinite bound takes the rows of a neuron away.
-/

namespace ReluMilp

variable {α : Type} [Scalar α]

/-- A replacement as it is asked for. -/
def Formulation.revise (f : Formulation α) (c : Revision α) : Action α (Replacement (Formulation α)) :=
  f.replaceBigM c.layer c.neuron c.upper c.lower

/-! ### Rows that are not taken -/

section Rows

variable {name layer neuron : Value} {u : HiddenUnit} {upper lower : BoundArgument α} {w : Workspace α}

omit [Scalar α] in
theorem Model.withRows_nil [Scalar α] (m : Model α) : m.withRows [] = m := by
  show { m with rows := m.rows ++ [], nextRow := m.nextRow + 0 } = m
  rw [List.append_nil]
  rfl

/-- Blocks that are all taken or none of them are added or leave the model as it was. -/
theorem stage_whole {blocks : List (RowBlock α)}
    (h : Action.taken blocks = blocks ∨ Action.taken blocks = []) (w : Workspace α) :
    (∃ ids v, Action.stage blocks w = .ok ids v ∧
      v.model = w.model.withRows (blocks.flatMap (·.rows))) ∨
    ∃ e v, Action.stage blocks w = .error e v ∧ v.model = w.model := by
  unfold Action.stage
  cases ha : w.model.addRows ((Action.taken blocks).flatMap (·.rows)) with
  | error f => exact .inr ⟨_, _, rfl, rfl⟩
  | ok p =>
    obtain ⟨m, ids⟩ := p
    obtain ⟨rfl, -⟩ := addRows_eq_ok ha
    dsimp only
    split
    · rename_i hshort
      rcases h with htaken | htaken
      · rw [htaken] at hshort
        exact absurd hshort (Nat.lt_irrefl _)
      · rw [htaken, List.flatMap_nil, Model.withRows_nil]
        exact .inr ⟨_, _, rfl, rfl⟩
    · rename_i hlong
      have hall : Action.taken blocks = blocks :=
        (List.takeWhile_prefix _).eq_of_length_le (Nat.not_lt.1 hlong)
      rw [hall]
      exact .inl ⟨_, _, rfl, rfl⟩

theorem taken_singleton (block : RowBlock α) :
    Action.taken [block] = [block] ∨ Action.taken [block] = [] := by
  unfold Action.taken
  rw [List.takeWhile_cons]
  split
  · exact .inl rfl
  · exact .inr rfl

/-- The lower row of a neuron is not looked at when it is given, so that it never stops the addition. -/
theorem taken_bigMBlocks (name layer neuron : Value) (x s z : VarId) (j : Interval α) :
    Action.taken (bigMBlocks name layer neuron x s z j) = bigMBlocks name layer neuron x s z j ∨
      Action.taken (bigMBlocks name layer neuron x s z j) = [] := by
  have hlower : (!(lowerBlock name layer neuron s z j.lower).checked ||
      (lowerBlock name layer neuron s z j.lower).rows.all fun r => finiteTerms r.terms) = true := rfl
  unfold Action.taken bigMBlocks
  rw [List.takeWhile_cons]
  split
  · rw [List.takeWhile_cons, if_pos hlower]
    exact .inl rfl
  · exact .inr rfl

/-- Rows of a neuron of which one is not taken are both kept out. -/
theorem commit_bigMBlocks_refused {x s z : VarId} {j : Interval α}
    (h : Action.accepts (bigMBlocks name layer neuron x s z j) = false) (w : Workspace α) :
    ∃ e v, Action.commit (bigMBlocks name layer neuron x s z j) w = .error e v ∧ v.model = w.model := by
  have hfails := Action.succeeds_commit (bigMBlocks name layer neuron x s z j) w
  rw [h] at hfails
  unfold Action.succeeds at hfails
  unfold Action.commit at hfails ⊢
  obtain ⟨ids, v, hstage, -⟩ | ⟨e, v, hstage, hv⟩ :=
    stage_whole (taken_bigMBlocks name layer neuron x s z j) w
  · rw [hstage] at hfails
    cases hfails
  · rw [hstage]
    refine ⟨e, _, rfl, ?_⟩
    split
    · exact hv
    · rw [v.settled_model, hv]

/-- Rows are renewed only for two numbers of which the model takes the rows. Otherwise none is added, or an
upper one if the lower bound is no number. -/
theorem renewRows_end (name layer neuron : Value) (u : HiddenUnit) (upper lower : BoundArgument α)
    (w : Workspace α) : ∃ r v, renewRows name layer neuron u upper lower w = .ok r v ∧
      (r.refusal = none ∨
        (∀ j : Interval α, upper.used = .ok j.upper → lower.used = .ok j.lower →
          Action.accepts (bigMBlocks name layer neuron u.x u.s u.z j) = false) ∧
        (r.result = u ∧ v.model = w.model ∨
          ∃ t a, r.result = { u with upperRow := w.model.nextRow } ∧
            v.model = w.model.withRows [upperDraft t u.x u.z a])) := by
  have hbase : (nextRow : Action α RowId) w = .ok w.model.nextRow w := rfl
  unfold renewRows
  rw [Action.bind_of_eq_ok hbase]
  cases hupper : upper.used with
  | error fault => exact ⟨_, _, rfl, .inr ⟨fun j hj => (nomatch hj), .inl ⟨rfl, rfl⟩⟩⟩
  | ok a =>
  cases hlower : lower.used with
  | error fault =>
    have hnone : ∀ j : Interval α, (.ok a : Except Fault α) = .ok j.upper →
        (.error fault : Except Fault α) = .ok j.lower →
        Action.accepts (bigMBlocks name layer neuron u.x u.s u.z j) = false := fun j _ hj => (nomatch hj)
    obtain ⟨ids, v, hstage, hv⟩ | ⟨e, v, hstage, hv⟩ :=
      stage_whole (taken_singleton (upperBlock name layer neuron u.x u.z a)) w
    · dsimp only
      rw [Action.bind_of_eq_ok (attempt_of_eq_ok hstage)]
      exact ⟨_, _, rfl, .inr ⟨hnone, .inr ⟨_, a, rfl, hv⟩⟩⟩
    · dsimp only
      rw [Action.bind_of_eq_ok (attempt_of_eq_error hstage)]
      exact ⟨_, _, rfl, .inr ⟨hnone, .inl ⟨rfl, hv⟩⟩⟩
  | ok c =>
    dsimp only
    cases hacc : Action.accepts (bigMBlocks name layer neuron u.x u.s u.z ⟨a, c⟩) with
    | true =>
      have hs := Action.succeeds_commit (bigMBlocks name layer neuron u.x u.s u.z ⟨a, c⟩) w
      rw [hacc] at hs
      obtain ⟨ids, v, hcommit⟩ := Action.exists_of_succeeds hs
      rw [Action.bind_of_eq_ok (attempt_of_eq_ok hcommit)]
      exact ⟨_, _, rfl, .inl rfl⟩
    | false =>
      obtain ⟨e, v, hcommit, hv⟩ := commit_bigMBlocks_refused hacc w
      rw [Action.bind_of_eq_ok (attempt_of_eq_error hcommit)]
      refine ⟨_, _, rfl, .inr ⟨fun j hu hl => ?_, .inl ⟨rfl, hv⟩⟩⟩
      cases hu
      cases hl
      exact hacc

end Rows

/-! ### Ends of a replacement -/

/-- Bounds for a neuron of which rows are made: the layer and the neuron are whole numbers, the table and the
rows get numbers, and the model takes the rows. -/
structure Formulation.Admits (f : Formulation α) (c : Revision α) (k i : Nat) (u : HiddenUnit)
    (j : Interval α) : Prop where
  whole : c.layer.index? ≠ none
  number : ∀ t, c.neuron ≠ .bool t
  stored : (f.storeBounds k (.ofValue i c.neuron) c.upper c.lower).refusal = none
  upper : c.upper.used = .ok j.upper
  lower : c.lower.used = .ok j.lower
  taken : Action.accepts (bigMBlocks f.name c.layer c.neuron u.x u.s u.z j) = true

/-- What a late refusal leaves: one neuron without its rows, up to an upper row that was added before the lower
bound was found to be no number, and other bounds in the layer of the neuron. -/
structure Formulation.Torn (f : Formulation α) (k i : Nat) (u : HiddenUnit) (m : Model α)
    (g : Formulation α) (m' : Model α) : Prop where
  table : ∀ k' ≠ k, g.table[k']? = f.table[k']?
  rest : g.network = f.network ∧ g.name = f.name ∧ g.mode = f.mode
  rows : g.body? = f.body? ∧ m' = m.removeRows [u.upperRow, u.lowerRow] ∨
    ∃ t a, g.body? = f.body?.map (·.withUnit k i { u with upperRow := m.nextRow }) ∧
      m' = (m.removeRows [u.upperRow, u.lowerRow]).withRows [upperDraft t u.x u.z a]

/-- How a replacement ends. Without such a neuron it is refused before anything changes; bounds of which no rows
are made are refused when the old rows are gone; and for all others the rows are exchanged. -/
inductive RevisionEnd (f : Formulation α) (c : Revision α) (w : Workspace α) :
    EStateM.Result Fault (Workspace α) (Replacement (Formulation α)) → Prop
  | unplaced (e : Fault) : f.place? c = none → RevisionEnd f c w (.error e w)
  | torn {k i : Nat} {b : Body} {us : List HiddenUnit} {u : HiddenUnit} {g : Formulation α} {e : Fault}
      {v : Workspace α} : f.place? c = some (k, i) → f.body? = some b → b.hidden[k]? = some us →
      us[i]? = some u → (∀ j, ¬f.Admits c k i u j) → f.Torn k i u w.model g v.model →
      RevisionEnd f c w (.ok ⟨g, some e⟩ v)
  | replaced {b : Body} {k i : Nat} {us : List HiddenUnit} {u : HiddenUnit} {j : Interval α}
      {g : Formulation α} {v : Workspace α} : f.Replaced c w.model b k i us u j g v.model →
      RevisionEnd f c w (.ok ⟨g, none⟩ v)

section Ends

variable {f g : Formulation α} {c : Revision α} {k i : Nat} {u : HiddenUnit} {w v : Workspace α}

/-- Without such a neuron nothing happens. -/
theorem revise_unplaced (h : f.place? c = none) (w : Workspace α) : ∃ e, f.revise c w = .error e w := by
  unfold Formulation.place? at h
  unfold Formulation.revise Formulation.replaceBigM
  cases hk : f.hiddenPosition c.layer with
  | error e => exact ⟨e, rfl⟩
  | ok k =>
    rw [hk] at h
    dsimp only at h
    have hlayer : (Action.ofExcept (.ok k) : Action α Nat) w = .ok k w := rfl
    rw [Action.bind_of_eq_ok hlayer]
    cases hi : Formulation.neuronPosition ((f.hidden[k]?).getD []).length c.neuron with
    | error e => exact ⟨e, rfl⟩
    | ok i =>
      rw [hi] at h
      cases h

omit [Scalar α] in
/-- A place has a unit. -/
theorem exists_unit (h : f.place? c = some (k, i)) : ∃ u, ((f.hidden[k]?).getD [])[i]? = some u := by
  obtain ⟨-, hi⟩ := place?_eq_some.1 h
  exact ⟨_, List.getElem?_eq_getElem (neuronPosition_lt hi)⟩

omit [Scalar α] in
/-- Bounds that are stored, whether they are all stored or not, change one layer of the table. -/
theorem storeBounds_table (f : Formulation α) (k : Nat) (which : Formulation.Selection)
    (upper lower : BoundArgument α) {k' : Nat} (hk : k' ≠ k) :
    (f.storeBounds k which upper lower).result.table[k']? = f.table[k']? := by
  unfold Formulation.storeBounds
  dsimp only
  split
  · rfl
  · split
    · exact List.getElem?_set_ne hk.symm
    · exact List.getElem?_set_ne hk.symm

/-- The unit that stands at a place put there again. -/
theorem withUnit_self {b : Body} {us : List HiddenUnit} (hk : b.hidden[k]? = some us) (hi : us[i]? = some u) :
    b.withUnit k i u = b := by
  obtain ⟨hk', hus⟩ := List.getElem?_eq_some_iff.1 hk
  obtain ⟨hi', hu⟩ := List.getElem?_eq_some_iff.1 hi
  have hset : us.set i u = us := by
    rw [← hu]
    exact List.set_getElem_self hi'
  have hmodify : (b.hidden.modify k fun us => us.set i u) = b.hidden := by
    rw [List.modify_eq_set_getElem?, hk]
    show b.hidden.set k (us.set i u) = b.hidden
    rw [hset, ← hus]
    exact List.set_getElem_self hk'
  unfold Body.withUnit
  rw [hmodify]

/-- What a refusal leaves before rows are added: other bounds in one layer. -/
theorem torn_of_table {m : Model α} {table : List (List (Interval α))}
    (h : ∀ k' ≠ k, table[k']? = f.table[k']?) :
    f.Torn k i u m { f with table := table } (m.removeRows [u.upperRow, u.lowerRow]) :=
  ⟨h, ⟨rfl, rfl, rfl⟩, .inl ⟨rfl, rfl⟩⟩

/-- What a refusal leaves that comes with the rows: the unit as it was, or with an upper row of its own. -/
theorem torn_of_unit {m m' : Model α} {b : Body} {us : List HiddenUnit} {u' : HiddenUnit}
    {table : List (List (Interval α))} (hb : f.body? = some b) (hk : b.hidden[k]? = some us)
    (hi : us[i]? = some u) (h : ∀ k' ≠ k, table[k']? = f.table[k']?)
    (hleft : u' = u ∧ m' = m.removeRows [u.upperRow, u.lowerRow] ∨
      ∃ t a, u' = { u with upperRow := m.nextRow } ∧
        m' = (m.removeRows [u.upperRow, u.lowerRow]).withRows [upperDraft t u.x u.z a]) :
    f.Torn k i u m (({ f with table := table } : Formulation α).withUnit k i u') m' := by
  refine ⟨h, ⟨rfl, rfl, rfl⟩, ?_⟩
  show f.body?.map (·.withUnit k i u') = f.body? ∧ _ ∨ _
  obtain ⟨rfl, hm'⟩ | ⟨t, a, rfl, hm'⟩ := hleft
  · refine .inl ⟨?_, hm'⟩
    rw [hb]
    exact congrArg some (withUnit_self hk hi)
  · exact .inr ⟨t, a, rfl, hm'⟩

/-- A place with bounds of which no rows are made: the old rows are removed before that is found out. -/
theorem revise_placed {b : Body} {us : List HiddenUnit} (hp : f.place? c = some (k, i))
    (hb : f.body? = some b) (hk : b.hidden[k]? = some us) (hi : us[i]? = some u) (w : Workspace α) :
    ∃ r v, f.revise c w = .ok r v ∧
      (r.refusal = none ∨ (∀ j, ¬f.Admits c k i u j) ∧ f.Torn k i u w.model r.result v.model) := by
  obtain ⟨hlayer, hneuron⟩ := place?_eq_some.1 hp
  have hus : (f.hidden[k]?).getD [] = us := by
    unfold Formulation.hidden
    rw [hb]
    show (b.hidden[k]?).getD [] = us
    rw [hk]
    rfl
  rw [hus] at hneuron
  have hreadk : (Action.ofExcept (.ok k) : Action α Nat) w = .ok k w := rfl
  have hreadi : (Action.ofExcept (.ok i) : Action α Nat) w = .ok i w := rfl
  have hdrop : (Action.dropRows [u.upperRow, u.lowerRow] : Action α Unit) w =
      .ok () (w.withWaiting (w.model.removeRows [u.upperRow, u.lowerRow])) := rfl
  unfold Formulation.revise Formulation.replaceBigM
  rw [hlayer, Action.bind_of_eq_ok hreadk, hus, hneuron, Action.bind_of_eq_ok hreadi, hi]
  dsimp only
  rw [Action.bind_of_eq_ok hdrop]
  cases hwhole : c.layer.index? with
  | none => exact ⟨_, _, rfl, .inr ⟨fun j hj => hj.whole hwhole, torn_of_table fun _ _ => rfl⟩⟩
  | some a =>
  obtain ⟨table, htable⟩ := storeBounds_result f k (.ofValue i c.neuron) c.upper c.lower
  have hothers : ∀ k' ≠ k, table[k']? = f.table[k']? := by
    intro k' hne
    have hsame := storeBounds_table f k (.ofValue i c.neuron) c.upper c.lower hne
    rw [htable] at hsame
    exact hsame
  dsimp only
  cases hstored : (f.storeBounds k (.ofValue i c.neuron) c.upper c.lower).refusal with
  | some fault =>
    refine ⟨_, _, rfl, .inr ⟨fun j hj => ?_, ?_⟩⟩
    · rw [hj.stored] at hstored
      cases hstored
    · rw [htable]
      exact torn_of_table hothers
  | none =>
    -- a truth value is refused here, and rows are made for everything else
    by_cases hbool : ∃ t, c.neuron = .bool t
    · obtain ⟨t, ht⟩ := hbool
      rw [ht]
      refine ⟨_, _, rfl, .inr ⟨fun j hj => hj.number t ht, ?_⟩⟩
      rw [← ht, htable]
      exact torn_of_table hothers
    · obtain ⟨r, v, hrenew, hend⟩ := renewRows_end f.name c.layer c.neuron u c.upper c.lower
        (w.withWaiting (w.model.removeRows [u.upperRow, u.lowerRow]))
      refine ⟨⟨(f.storeBounds k (.ofValue i c.neuron) c.upper c.lower).result.withUnit k i r.result,
        r.refusal⟩, v, ?_, ?_⟩
      · cases hvalue : c.neuron with
        | bool t => exact absurd ⟨t, hvalue⟩ hbool
        | null | int _ | real _ | text _ | list _ | record _ =>
          rw [hvalue] at hrenew
          exact Action.bind_of_eq_ok hrenew
      · rcases hend with hnone | ⟨hrefused, hleft⟩
        · exact .inl hnone
        · rw [htable]
          refine .inr ⟨fun j hj => ?_, torn_of_unit hb hk hi hothers hleft⟩
          have hkept := hrefused j hj.upper hj.lower
          rw [hj.taken] at hkept
          cases hkept

/-- Every replacement comes to one of the ends. -/
theorem revise_end (f : Formulation α) (c : Revision α) (w : Workspace α) :
    RevisionEnd f c w (f.revise c w) := by
  cases hp : f.place? c with
  | none =>
    obtain ⟨e, he⟩ := revise_unplaced hp w
    rw [he]
    exact .unplaced e hp
  | some p =>
    obtain ⟨k, i⟩ := p
    obtain ⟨u, hu⟩ := exists_unit hp
    obtain ⟨b, us, hb, hk, hi⟩ := exists_of_hidden hu
    obtain ⟨⟨g, refusal⟩, v, hrun, hend⟩ := revise_placed hp hb hk hi w
    cases refusal with
    | none =>
      obtain ⟨b', k', i', us', u', j, hr⟩ := exists_replaced hrun
      rw [hrun]
      exact .replaced hr
    | some e =>
      rw [hrun]
      rcases hend with hnone | ⟨hadmits, htorn⟩
      · cases hnone
      · exact .torn hp hb hk hi hadmits htorn

end Ends

/-! ### Calls one after the other -/

/-- Formulations and workspaces that calls lead to, each of which exchanges rows for bounds that are numbers or
is refused because there is no such neuron. -/
inductive Calls (f : Formulation α) (w : Workspace α) : Formulation α → Workspace α → Prop
  | refl : Calls f w f w
  | replaced {g g' : Formulation α} {v v' : Workspace α} {c : Revision α} : Calls f w g v →
      c.upper.Faithful → c.lower.Faithful → g.revise c v = .ok ⟨g', none⟩ v' → Calls f w g' v'
  | refused {g : Formulation α} {v v' : Workspace α} {c : Revision α} {e : Fault} : Calls f w g v →
      g.revise c v = .error e v' → Calls f w g v'

/-- A call that is refused at once might as well not have been made. -/
theorem Calls.revisions {f g : Formulation α} {w v : Workspace α} (h : Calls f w g v) :
    ∃ cs, Revisions f w cs g v := by
  induction h with
  | refl => exact ⟨[], .refl⟩
  | replaced _ hu hl hstep ih =>
    obtain ⟨cs, hcs⟩ := ih
    exact ⟨_, hcs.step hu hl hstep⟩
  | @refused g v v' c e _ hstep ih =>
    have hend := revise_end g c v
    rw [hstep] at hend
    cases hend with
    | unplaced e hp => exact ih

/-- A replacement for a neuron that is not there changes nothing. One with bounds of which rows are made
succeeds. Any other one, as with an infinite bound, costs that neuron its rows, and nothing else but its
layer of the table changes. So after any number of successful calls, and of calls that are refused
because there is no such neuron, every hidden neuron has the two rows that its bounds in the table
ask for, and every feasible assignment evaluates the network. -/
theorem replacements_intact {solver : Solver Rat} {settings : Option Settings} {a : BuildArguments Rat}
    {f g : Formulation Rat} {w w₁ w₂ : Workspace Rat} (hm : w.model.WellFormed) (ha : a.Faithful)
    (hbuild : formulateNetwork solver settings a w = .ok f w₁) (hcalls : Calls f w₁ g w₂) :
    (∀ {β : Type} [Scalar β] (e : Formulation β) (c : Revision β) (v : Workspace β),
      RevisionEnd e c v (e.revise c v)) ∧
    ∃ b table last, g.network = f.network ∧ g.body? = some b ∧ g.table = table ++ [last] ∧
      Layerwise (HiddenUnit.Stands w₂.model) b.inputs g.network.hidden b.hidden table ∧
      ∀ x, w₂.model.Feasible x → b.Evaluates g.network x := by
  refine ⟨fun e c v => revise_end e c v, ?_⟩
  obtain ⟨cs, hrun⟩ := hcalls.revisions
  obtain ⟨-, b₁, table₁, last, hf⟩ := formulateNetwork_keeps hm ha hbuild
  have hbase := Model.wellFormed_parameters hm w₁.model.parameters
  obtain ⟨b, table, hg⟩ := hf.run hbase hrun
  refine ⟨b, table, last, hrun.shape.1, hg.body, hg.stored, hg.placed.stands.hidden, fun x hx => ?_⟩
  exact hg.placed.stands.evaluates hg.wellFormed (hx.satisfiedOn _ _)

/-- The absolute value, with other bounds for a neuron and then for the output layer, which is not hidden. -/
theorem replacements_intact_absolute :
    ∃ (f g : Formulation Rat) (w₁ w₂ : Workspace Rat) (b : Body) (table : List (List (Interval Rat))),
      formulateNetwork .ideal none (.absolute "fast") (.ofModel (.empty "model")) = .ok f w₁ ∧
      Calls f w₁ g w₂ ∧ g.body? = some b ∧ w₂.model.Feasible (fun _ => 0) ∧
      Layerwise (HiddenUnit.Stands w₂.model) b.inputs Network.absolute.hidden b.hidden table ∧
      b.Evaluates Network.absolute (fun _ => 0) := by
  have hrun : (match formulateNetwork .ideal none (.absolute "fast") (.ofModel (.empty "model")) with
      | .ok f w₁ =>
        match f.revise (.last 3 (-1)) w₁ with
        | .ok ⟨g, none⟩ v =>
          match g.revise { Revision.last 3 (-1) with layer := .int 2 } v with
          | .error _ w₂ => decide (w₂.model.Feasible fun _ => 0)
          | _ => false
        | _ => false
      | _ => false) = true := by decide +kernel
  split at hrun
  · rename_i f w₁ hbuild
    split at hrun
    · rename_i g v hfirst
      split at hrun
      · rename_i e w₂ hsecond
        have hx := of_decide_eq_true hrun
        have hcalls : Calls f w₁ g w₂ :=
          .refused (.replaced .refl (Revision.faithful_last 3 (-1)).1 (Revision.faithful_last 3 (-1)).2
            hfirst) hsecond
        obtain ⟨hn, -⟩ := formulateNetwork_placed (Model.wellFormed_empty "model")
          (BuildArguments.faithful_absolute "fast") hbuild
        obtain ⟨-, b, table, last, hg, hb, -, hstands, heval⟩ :=
          replacements_intact (Model.wellFormed_empty "model") (BuildArguments.faithful_absolute "fast")
            hbuild hcalls
        have hnet : Network.absolute = f.network := Except.ok.inj hn
        rw [hg, ← hnet] at hstands heval
        exact ⟨f, g, w₁, w₂, b, table, hbuild, hcalls, hb, hx, hstands, heval _ hx⟩
      · cases hrun
    · cases hrun
  · cases hrun

/-- An upper bound of a neuron that is infinite, and a lower one that is not. -/
def Revision.unbounded : Revision Float :=
  ⟨.int 1, .int 0, .ofValue (.real (1 / 0)), .ofValue (.real (-1))⟩

/-- The call with an infinite bound is refused, and yet it takes both rows of the neuron away, while the
formulation goes on to name them, and puts the infinite bound into the table. -/
theorem replacements_torn_magnitude :
    ∃ (f g : Formulation Float) (w v : Workspace Float) (e : Fault),
      formulateNetwork .broken none .magnitude (.ofModel (.empty "model")) = .ok f w ∧
      f.revise .unbounded w = .ok ⟨g, some e⟩ v ∧
      (∀ id ∈ f.rows, id ∈ w.model.rows.map (·.id)) ∧
      (∃ us ∈ g.hidden, ∃ u ∈ us, u.upperRow ∉ v.model.rows.map (·.id) ∧
        u.lowerRow ∉ v.model.rows.map (·.id)) ∧
      (f.table.all fun is => is.all fun i => Scalar.isFinite i.upper) = true ∧
      (g.table.all fun is => is.all fun i => Scalar.isFinite i.upper) = false := by
  have hrun : Action.succeeds (do
      let f ← formulateNetwork .broken none .magnitude
      let m ← Action.model
      let r ← f.revise .unbounded
      let m' ← Action.model
      if r.refusal ≠ none ∧ (∀ id ∈ f.rows, id ∈ m.rows.map (·.id)) ∧
          (∃ us ∈ r.result.hidden, ∃ u ∈ us, u.upperRow ∉ m'.rows.map (·.id) ∧
            u.lowerRow ∉ m'.rows.map (·.id)) ∧
          (f.table.all fun is => is.all fun i => Scalar.isFinite i.upper) = true ∧
          (r.result.table.all fun is => is.all fun i => Scalar.isFinite i.upper) = false
        then pure () else throw .wrongKind) (.ofModel (.empty "model")) = true := by decide +kernel
  obtain ⟨_, _, hrun⟩ := Action.exists_of_succeeds hrun
  obtain ⟨f, w, hbuild, hrun⟩ := Action.bind_eq_ok.1 hrun
  obtain ⟨m, w₁, hm, hrun⟩ := Action.bind_eq_ok.1 hrun
  obtain ⟨rfl, rfl⟩ := Action.model_eq_ok.1 hm
  obtain ⟨⟨g, refusal⟩, v, hcall, hrun⟩ := Action.bind_eq_ok.1 hrun
  obtain ⟨m', v₁, hm', hrun⟩ := Action.bind_eq_ok.1 hrun
  obtain ⟨rfl, rfl⟩ := Action.model_eq_ok.1 hm'
  split at hrun
  · rename_i h
    obtain ⟨hrefused, hleft⟩ := h
    obtain ⟨e, rfl⟩ := Option.ne_none_iff_exists'.1 hrefused
    exact ⟨f, g, w, v, e, hbuild, hcall, hleft⟩
  · exact absurd hrun Action.throw_ne_ok

end ReluMilp
