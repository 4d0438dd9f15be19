import ReluMilp.Proofs.Switches
import Mathlib.Data.List.Induction

/-!
# Replacements one after the other

Users give other bounds to single neurons, any number of times and in any order.

* `BoundArgument.Faithful`, `BoundArgument.faithful_ofValue` — the number of a row is the one that the
  table keeps;
* `Revisions` — successful replacements one after the other, as they were asked for;
* `Formulation.Kept` — a formulation with a table stands in a model and is all that was added to it, as after
  a build (`formulateNetwork_keeps`); one replacement keeps that (`Kept.revise`), and so does any number of
  them (`Kept.run`);
* `Formulation.lastAt?` — the last replacement for the neuron at a place;
* `Revised`, `Revisions.revised` — what table and rows are afterwards, place by place;
* `Revised.table_eq`, `Revised.perm_rows` — only the last replacement of every neuron matters;
* `Revisions.replay` — replacements that succeed do so in any order.
-/

namespace ReluMilp

variable {α : Type}

/-! ### Bounds that are numbers -/

/-- A number that rows are made of is also what a table keeps. -/
def BoundArgument.Faithful (b : BoundArgument α) : Prop := ∀ a, b.used = .ok a → b.stored = .ok a

theorem BoundArgument.faithful_ofValue (v : Value) : (BoundArgument.ofValue v).Faithful := by
  intro a h
  cases v with
  | bool b => exact h
  | int n => exact h
  | real x => exact h
  | null => cases h
  | text s => cases h
  | list vs => cases h
  | record fs => cases h

/-- Bounds of a single neuron in the table. -/
theorem storeBounds_single {f : Formulation α} {k i : Nat} {upper lower : BoundArgument α}
    {j : Interval α} (hu : upper.stored = .ok j.upper) (hl : lower.stored = .ok j.lower) :
    (f.storeBounds k (.single i) upper lower).result =
      { f with table := f.table.modify k fun is => is.set i j } := by
  have hset : ∀ is : List (Interval α),
      (is.modify i fun d => { d with upper := j.upper }).modify i (fun d => { d with lower := j.lower }) =
        is.set i j := by
    intro is
    rw [List.modify_modify_eq, List.set_eq_modify]
    rfl
  have htable : f.table.set k (((f.table[k]?).getD []).set i j) =
      f.table.modify k fun is => is.set i j := by
    cases hk : f.table[k]? with
    | none =>
      have hlen := List.getElem?_eq_none_iff.1 hk
      rw [List.set_eq_of_length_le hlen, List.modify_eq_self hlen]
    | some is =>
      rw [List.modify_eq_set_getElem?, hk]
      rfl
  unfold Formulation.storeBounds Formulation.replaced
  rw [hu, hl]
  show Formulation.withLayer f k _ = _
  unfold Formulation.withLayer
  rw [← htable, ← hset]

/-! ### Runs -/

variable [Scalar α]

/-- Formulations and workspaces that replacements without refusal lead to, with bounds that are
numbers. -/
inductive Revisions (f : Formulation α) (w : Workspace α) :
    List (Revision α) → Formulation α → Workspace α → Prop
  | refl : Revisions f w [] f w
  | step {cs : List (Revision α)} {c : Revision α} {g g' : Formulation α} {v v' : Workspace α} :
      Revisions f w cs g v → c.upper.Faithful → c.lower.Faithful →
      g.replaceBigM c.layer c.neuron c.upper c.lower v = .ok ⟨g', none⟩ v' →
      Revisions f w (cs ++ [c]) g' v'

section Replaced

variable {f g : Formulation α} {c : Revision α} {m m' : Model α} {b : Body} {k i : Nat}
  {us : List HiddenUnit} {u : HiddenUnit} {j : Interval α}

/-- What becomes of the formulation when bounds that are numbers are given to a neuron. -/
theorem Formulation.Replaced.result_eq (h : f.Replaced c m b k i us u j g m')
    (hu : c.upper.Faithful) (hl : c.lower.Faithful) :
    g = { f with
      table := f.table.modify k fun is => is.set i j
      body? := some (b.withUnit k i (u.moved m.nextRow)) } := by
  have hg := h.result
  rw [storeBounds_single (hu _ h.upper) (hl _ h.lower)] at hg
  exact hg

end Replaced

/-- A formulation stands in a model with the bounds of its table, and it is all that was added to another
model. -/
structure Formulation.Kept (f : Formulation α) (base m : Model α) (b : Body)
    (table : List (List (Interval α))) (last : List (Interval α)) : Prop where
  wellFormed : m.WellFormed
  body : f.body? = some b
  stored : f.table = table ++ [last]
  placed : b.Placed m f.network f.mode table
  adds : base.Adds m b.vars b.rows

/-- A network that is formulated stands in the model, and only the parameters may have
changed besides. -/
theorem formulateNetwork_keeps {solver : Solver α} {settings : Option Settings} {a : BuildArguments α}
    {f : Formulation α} {w w' : Workspace α} (hm : w.model.WellFormed) (ha : a.Faithful)
    (h : formulateNetwork solver settings a w = .ok f w') :
    a.network = .ok f.network ∧ ∃ b table last,
      f.Kept { w.model with parameters := w'.model.parameters } w'.model b table last := by
  obtain ⟨hn, hm', b, -, hb, -, hadds⟩ := formulateNetwork_placed hm ha h
  obtain ⟨b', table, last, hb', htable, hp⟩ := formulateNetwork_kept hm ha h
  rw [hb] at hb'
  cases hb'
  exact ⟨hn, b, table, last, hm', hb, htable, hp, hadds⟩

theorem modify_append_of_lt {β : Type} {bs bs' : List β} {f : β → β} {k : Nat} (h : k < bs.length) :
    (bs ++ bs').modify k f = bs.modify k f ++ bs' := by
  induction bs generalizing k with
  | nil => exact absurd h (Nat.not_lt_zero k)
  | cons b bs ih =>
    cases k with
    | zero => rfl
    | succ k => rw [List.cons_append, List.modify_succ_cons, List.modify_succ_cons,
        ih (Nat.lt_of_succ_lt_succ h), List.cons_append]

namespace Formulation.Kept

variable {f g : Formulation α} {base m m' : Model α} {b : Body} {table : List (List (Interval α))}
  {last : List (Interval α)}

theorem length_table (h : f.Kept base m b table last) : table.length = b.hidden.length := by
  obtain ⟨huss, hiss⟩ := h.placed.stands.hidden.length_eq
  have hlen := congrArg List.length (hiss.trans huss.symm)
  rw [List.length_map, List.length_map] at hlen
  exact hlen

/-- The table has an interval for every neuron. -/
theorem exists_bounds {p : Nat × Nat} {u : HiddenUnit} (h : f.Kept base m b table last)
    (hu : at? b.hidden p = some u) : ∃ i, at? table p = some i ∧ at? f.table p = some i := by
  obtain ⟨us, hk, hi⟩ := at?_eq_some.1 hu
  obtain ⟨huss, hiss⟩ := h.placed.stands.hidden.length_eq
  have hlt : p.1 < table.length := by
    rw [h.length_table]
    exact (List.getElem?_eq_some_iff.1 hk).1
  have hwidth : (table[p.1]).length = us.length := by
    have hlen : (table.map List.length)[p.1]? = (b.hidden.map List.length)[p.1]? := by
      rw [hiss, huss]
    rw [List.getElem?_map, List.getElem?_map, hk, List.getElem?_eq_getElem hlt] at hlen
    exact Option.some.inj hlen
  have hi' : p.2 < (table[p.1]).length := by
    rw [hwidth]
    exact (List.getElem?_eq_some_iff.1 hi).1
  refine ⟨(table[p.1])[p.2], ?_, ?_⟩
  · exact at?_eq_some.2 ⟨_, List.getElem?_eq_getElem hlt, List.getElem?_eq_getElem hi'⟩
  · rw [h.stored]
    refine at?_eq_some.2 ⟨table[p.1], ?_, List.getElem?_eq_getElem hi'⟩
    rw [List.getElem?_append_left hlt, List.getElem?_eq_getElem hlt]

/-- Bounds for one neuron: its place in the table and its rows change together. -/
theorem revise {c : Revision α} {b' : Body} {k i : Nat} {us : List HiddenUnit} {u : HiddenUnit}
    {j : Interval α} (h : f.Kept base m b table last) (hbase : base.WellFormed)
    (hr : f.Replaced c m b' k i us u j g m') (hu : c.upper.Faithful) (hl : c.lower.Faithful) :
    b' = b ∧ g.Kept base m' (b.withUnit k i (u.moved m.nextRow))
      (table.modify k fun is => is.set i j) last := by
  have hb : b' = b := by
    have hbody := hr.body
    rw [h.body] at hbody
    exact (Option.some.inj hbody).symm
  subst hb
  have hg := hr.result_eq hu hl
  have hk : k < table.length := by
    rw [h.length_table]
    exact (List.getElem?_eq_some_iff.1 hr.units).1
  obtain ⟨hp, hm'⟩ := h.placed.swap h.wellFormed hr.units hr.unit
    (unitRowName f.name "relu_ub" c.layer c.neuron) (unitRowName f.name "relu_lb" c.layer c.neuron) j
  obtain ⟨-, -, ha⟩ := hr.exchanges.placed hbase h.wellFormed h.placed h.adds
  rw [← hr.model] at hp hm'
  rw [hg]
  refine ⟨rfl, hm', rfl, ?_, hp, ha⟩
  show f.table.modify k _ = _
  rw [h.stored, modify_append_of_lt hk]

/-- Any number of replacements. -/
theorem run {w w' : Workspace α} {cs : List (Revision α)} (h : f.Kept base w.model b table last)
    (hbase : base.WellFormed) (hrun : Revisions f w cs g w') :
    ∃ b' table', g.Kept base w'.model b' table' last := by
  induction hrun with
  | refl => exact ⟨b, table, h⟩
  | step _ hu hl hstep ih =>
    obtain ⟨b₁, table₁, hg⟩ := ih
    obtain ⟨b₂, k, i, us, u, j, hr⟩ := exists_replaced hstep
    exact ⟨_, _, (hg.revise hbase hr hu hl).2⟩

end Formulation.Kept

/-! ### Places -/

section Places

variable {f g : Formulation α} {c : Revision α}

omit [Scalar α] in
/-- The place of the neuron that a replacement is for: its layer, counted from zero, and its number. -/
def Formulation.place? (f : Formulation α) (c : Revision α) : Option (Nat × Nat) :=
  match f.hiddenPosition c.layer with
  | .error _ => none
  | .ok k =>
    match neuronPosition ((f.hidden[k]?).getD []).length c.neuron with
    | .error _ => none
    | .ok i => some (k, i)

omit [Scalar α] in
theorem place?_eq_some {k i : Nat} : f.place? c = some (k, i) ↔ f.hiddenPosition c.layer = .ok k ∧
    Formulation.neuronPosition ((f.hidden[k]?).getD []).length c.neuron = .ok i := by
  unfold Formulation.place?
  constructor
  · intro h
    split at h
    · cases h
    · rename_i k' hk
      split at h
      · cases h
      · rename_i i' hi
        cases h
        exact ⟨hk, hi⟩
  · rintro ⟨hk, hi⟩
    rw [hk]
    dsimp only
    rw [hi]

theorem position?_lt {n i : Nat} {a : Int} (h : position? n a = some i) : i < n := by
  unfold position? at h
  dsimp only at h
  generalize (if a < 0 then a + n else a) = k at h
  split at h
  · rename_i hbound
    cases h
    omega
  · cases h

theorem neuronPosition_lt {n i : Nat} {neuron : Value}
    (h : Formulation.neuronPosition n neuron = .ok i) : i < n := by
  unfold Formulation.neuronPosition at h
  cases hindex : neuron.index? with
  | none =>
    rw [hindex] at h
    cases h
  | some a =>
    rw [hindex] at h
    dsimp only at h
    cases hp : position? n a with
    | none =>
      rw [hp] at h
      cases h
    | some i' =>
      rw [hp] at h
      cases h
      exact position?_lt hp

omit [Scalar α] in
/-- The last of some replacements for the neuron at a place. -/
def Formulation.lastAt? (f : Formulation α) (cs : List (Revision α)) (p : Nat × Nat) :
    Option (Revision α) :=
  (cs.filter fun c => f.place? c = some p).getLast?

omit [Scalar α] in
theorem lastAt?_snoc_self {cs : List (Revision α)} {p : Nat × Nat} (h : f.place? c = some p) :
    f.lastAt? (cs ++ [c]) p = some c := by
  unfold Formulation.lastAt?
  rw [List.filter_append, List.filter_cons_of_pos (by simpa using h), List.filter_nil,
    List.getLast?_concat]

omit [Scalar α] in
theorem lastAt?_snoc_of_ne {cs : List (Revision α)} {p q : Nat × Nat} (h : f.place? c = some q)
    (hne : p ≠ q) : f.lastAt? (cs ++ [c]) p = f.lastAt? cs p := by
  have hother : f.place? c ≠ some p := by
    rw [h]
    exact fun heq => hne (Option.some.inj heq).symm
  unfold Formulation.lastAt?
  rw [List.filter_append, List.filter_cons_of_neg (by simpa using hother), List.filter_nil,
    List.append_nil]

omit [Scalar α] in
/-- Of two replacements for one neuron, the first does not matter. -/
theorem lastAt?_override {cs : List (Revision α)} {c' : Revision α} (h : f.place? c = f.place? c')
    (p : Nat × Nat) : f.lastAt? (cs ++ [c, c']) p = f.lastAt? (cs ++ [c']) p := by
  unfold Formulation.lastAt?
  by_cases hp : f.place? c' = some p
  · have hp' : f.place? c = some p := h.trans hp
    simp [List.filter_append, hp, hp']
  · have hp' : f.place? c ≠ some p := fun heq => hp (h.symm.trans heq)
    simp [List.filter_append, hp, hp']

omit [Scalar α] in
/-- The order of two replacements for different neurons does not matter. -/
theorem lastAt?_comm {cs : List (Revision α)} {c' : Revision α} (h : f.place? c ≠ f.place? c')
    (p : Nat × Nat) : f.lastAt? (cs ++ [c, c']) p = f.lastAt? (cs ++ [c', c]) p := by
  unfold Formulation.lastAt?
  by_cases hp : f.place? c' = some p
  · have hp' : f.place? c ≠ some p := fun heq => h (heq.trans hp.symm)
    simp [List.filter_append, hp, hp']
  · by_cases hp' : f.place? c = some p
    · simp [List.filter_append, hp, hp']
    · simp [List.filter_append, hp, hp']

omit [Scalar α] in
/-- Where a replacement goes depends on the widths of the hidden layers only. -/
theorem place?_congr (h : g.hidden.map List.length = f.hidden.map List.length) (c : Revision α) :
    g.place? c = f.place? c := by
  have hlen : g.hidden.length = f.hidden.length := by
    have := congrArg List.length h
    rwa [List.length_map, List.length_map] at this
  have hlayer : g.hiddenPosition c.layer = f.hiddenPosition c.layer := by
    unfold Formulation.hiddenPosition
    rw [hlen]
  unfold Formulation.place?
  rw [hlayer]
  simp only [width_congr h]

omit [Scalar α] in
/-- The units of a formulation with a body are those of the body. -/
theorem hidden_eq {b : Body} (h : f.body? = some b) : f.hidden = b.hidden := by
  unfold Formulation.hidden
  rw [h]
  rfl

theorem Formulation.Replaced.place {m m' : Model α} {b : Body} {k i : Nat} {us : List HiddenUnit}
    {u : HiddenUnit} {j : Interval α} (h : f.Replaced c m b k i us u j g m') :
    f.place? c = some (k, i) := by
  have hus : (f.hidden[k]?).getD [] = us := by
    rw [hidden_eq h.body, h.units]
    rfl
  refine place?_eq_some.2 ⟨h.layer, ?_⟩
  rw [hus]
  exact h.neuron

/-- A replacement keeps the widths of the layers. -/
theorem Formulation.Replaced.shape {m m' : Model α} {b : Body} {k i : Nat} {us : List HiddenUnit}
    {u : HiddenUnit} {j : Interval α} (h : f.Replaced c m b k i us u j g m') :
    g.hidden.map List.length = f.hidden.map List.length := by
  obtain ⟨-, -, -, hbody⟩ := h.fixed
  rw [hidden_eq h.body, hidden_eq hbody]
  exact map_length_set b.hidden k i _

theorem Revisions.shape {w w' : Workspace α} {cs : List (Revision α)} (h : Revisions f w cs g w') :
    g.network = f.network ∧ g.name = f.name ∧ g.hidden.map List.length = f.hidden.map List.length := by
  induction h with
  | refl => exact ⟨rfl, rfl, rfl⟩
  | step _ _ _ hstep ih =>
    obtain ⟨b, k, i, us, u, j, hr⟩ := exists_replaced hstep
    obtain ⟨hnetwork, hname, hshape⟩ := ih
    obtain ⟨hn, -, ht, -⟩ := hr.fixed
    exact ⟨hn.trans hnetwork, ht.trans hname, hr.shape.trans hshape⟩

end Places

/-! ### Tables and rows after a run -/

/-- What the rows of neurons say, place by place. -/
def Body.contents (b : Body) (m : Model α) : List (List (List (RowDraft α))) :=
  b.hidden.map (·.map fun u => m.contents u.switches)

omit [Scalar α] in
/-- The interval of bounds that are numbers. -/
def Revision.interval? (c : Revision α) : Option (Interval α) :=
  match c.upper.used, c.lower.used with
  | .ok a, .ok a' => some ⟨a, a'⟩
  | _, _ => none

/-- What the rows of a neuron say for an interval, under names that show how it was asked for. -/
def Revision.contents (c : Revision α) (name : Value) (u : HiddenUnit) (i : Interval α) :
    List (RowDraft α) :=
  [((upperDraft (unitRowName name "relu_ub" c.layer c.neuron) u.x u.z i.upper).toRow 0).content,
    ((lowerDraft (unitRowName name "relu_lb" c.layer c.neuron) u.s u.z i.lower).toRow 0).content]

theorem isEmpty_unitRowName (name layer neuron : Value) (part : String) :
    (unitRowName name part layer neuron).isEmpty = false := by
  have hend : ∀ s : String, (s ++ ")]").isEmpty = false := by
    intro s
    unfold String.isEmpty
    rw [String.utf8ByteSize_append]
    simp
  unfold unitRowName qualify
  split
  · rw [← String.append_assoc]
    exact hend _
  · exact hend _

/-- A named row says the same under every number. -/
theorem content_toRow {d : RowDraft α} (h : d.name.isEmpty = false) (id : RowId) :
    (d.toRow id).content = (d.toRow 0).content := by
  unfold RowDraft.toRow Row.content nameOrNumber
  rw [h]
  rfl

/-- A formulation, its body and its model after replacements: variables and other rows are as before, and
table and rows are, place by place, those of the last replacement. -/
structure Revised (f : Formulation α) (b : Body) (m : Model α) (cs : List (Revision α))
    (g : Formulation α) (b' : Body) (m' : Model α) : Prop where
  shape : b'.hidden.map (·.map HiddenUnit.vars) = b.hidden.map (·.map HiddenUnit.vars)
  vars : m'.vars = m.vars
  others : (m'.removeRows b'.switches).rows = (m.removeRows b.switches).rows
  widths : g.table.map List.length = f.table.map List.length
  bounds : ∀ p, at? g.table p = (f.lastAt? cs p).elim (at? f.table p) (·.interval?)
  rows : ∀ p, at? (b'.contents m') p = (f.lastAt? cs p).elim (at? (b.contents m) p) fun c => do
    let u ← at? b.hidden p
    let i ← c.interval?
    return c.contents f.name u i

namespace Revised

variable {f g g' : Formulation α} {b b' : Body} {m m' m₂ : Model α} {cs : List (Revision α)}

theorem refl (f : Formulation α) (b : Body) (m : Model α) : Revised f b m [] f b m :=
  ⟨rfl, rfl, rfl, rfl, fun _ => rfl, fun _ => rfl⟩

omit [Scalar α] in
theorem interval?_eq {c : Revision α} {j : Interval α} (hu : c.upper.used = .ok j.upper)
    (hl : c.lower.used = .ok j.lower) : c.interval? = some j := by
  unfold Revision.interval?
  rw [hu, hl]

omit [Scalar α] in
theorem at?_contents (b : Body) (m : Model α) (p : Nat × Nat) :
    at? (b.contents m) p = (at? b.hidden p).map fun u => m.contents u.switches :=
  at?_map _ b.hidden p

/-- One more replacement. -/
theorem step {base : Model α} {table : List (List (Interval α))} {last : List (Interval α)}
    {c : Revision α} {k i : Nat} {us : List HiddenUnit} {u : HiddenUnit} {j : Interval α}
    (h : Revised f b m cs g b' m') (hg : g.Kept base m' b' table last) (hname : g.name = f.name)
    (hplace : f.place? c = some (k, i)) (hr : g.Replaced c m' b' k i us u j g' m₂)
    (hu : c.upper.Faithful) (hl : c.lower.Faithful) :
    Revised f b m (cs ++ [c]) g' (b'.withUnit k i (u.moved m'.nextRow)) m₂ := by
  have hat : at? b'.hidden (k, i) = some u := at?_eq_some.2 ⟨us, hr.units, hr.unit⟩
  have hmoved : at? (b'.withUnit k i (u.moved m'.nextRow)).hidden (k, i) =
      some (u.moved m'.nextRow) := at?_set_self hat
  have hothers : ∀ p ≠ (k, i), at? (b'.withUnit k i (u.moved m'.nextRow)).hidden p = at? b'.hidden p :=
    fun p hp => at?_set_of_ne hp
  have hinterval := interval?_eq hr.upper hr.lower
  have hg' := hr.result_eq hu hl
  obtain ⟨hflat, hdisj⟩ := nodup_units hg.placed.stands.units_nodup
  have hmem : u ∈ b'.hidden.flatten := mem_flatten_of_at? hat
  -- the variables of all units stay, also those of the unit that is exchanged
  have hshape : (b'.withUnit k i (u.moved m'.nextRow)).hidden.map (·.map HiddenUnit.vars) =
      b'.hidden.map (·.map HiddenUnit.vars) := by
    refine eq_of_at? ?_ fun p => ?_
    · have hlen := map_length_set b'.hidden k i (u.moved m'.nextRow)
      simp only [List.map_map, Function.comp_def, List.length_map]
      exact hlen
    · rw [at?_map, at?_map]
      by_cases hp : p = (k, i)
      · rw [hp, hmoved, hat]
        rfl
      · rw [hothers p hp]
  refine ⟨hshape.trans h.shape, ?_, ?_, ?_, fun p => ?_, fun p => ?_⟩
  · rw [hr.model]
    exact h.vars
  · rw [hr.model, removeRows_switches_swap hg.wellFormed hr.units hr.unit]
    exact h.others
  · rw [hg', ← h.widths]
    exact map_length_set g.table k i j
  · rw [hg']
    by_cases hp : p = (k, i)
    · obtain ⟨d, -, hd⟩ := hg.exists_bounds hat
      rw [hp, lastAt?_snoc_self hplace]
      show at? (g.table.modify k fun is => is.set i j) (k, i) = c.interval?
      rw [at?_set_self hd, hinterval]
    · rw [lastAt?_snoc_of_ne hplace hp, ← h.bounds]
      exact at?_set_of_ne hp
  · rw [at?_contents]
    by_cases hp : p = (k, i)
    · obtain ⟨u₀, hu₀, hvars⟩ : ∃ u₀, at? b.hidden (k, i) = some u₀ ∧ u.vars = u₀.vars := by
        have hsame := congrArg (at? · (k, i)) h.shape
        rw [at?_map, at?_map, hat] at hsame
        obtain ⟨u₀, hu₀, hvars⟩ := Option.map_eq_some_iff.1 hsame.symm
        exact ⟨u₀, hu₀, hvars.symm⟩
      obtain ⟨hx, hs, hz⟩ : u.x = u₀.x ∧ u.s = u₀.s ∧ u.z = u₀.z := by
        simpa [HiddenUnit.vars] using hvars
      rw [hp, hmoved, lastAt?_snoc_self hplace, Option.map_some, hr.model,
        contents_swap_self hg.wellFormed]
      show _ = (do
        let u ← at? b.hidden (k, i)
        let i ← c.interval?
        return c.contents f.name u i)
      rw [hu₀, hinterval]
      show some _ = some (c.contents f.name u₀ j)
      unfold Revision.contents
      rw [content_toRow (isEmpty_unitRowName _ _ _ _) m'.nextRow,
        content_toRow (isEmpty_unitRowName _ _ _ _) (m'.nextRow + 1), hname, hx, hs, hz]
    · rw [hothers p hp, lastAt?_snoc_of_ne hplace hp, ← h.rows, at?_contents]
      cases hv : at? b'.hidden p with
      | none => rfl
      | some v =>
        have hvmem := mem_flatten_of_at? hv
        have hvu : v ≠ u := by
          rintro rfl
          exact hp (at?_inj hflat hv hat)
        have hd := hdisj u hmem v hvmem hvu
        have hlt : ∀ id ∈ v.switches, id < m'.nextRow := by
          intro id hid
          refine hg.placed.stands.rows_lt id (Body.mem_rows.2 (.inr (.inl ?_)))
          exact (mem_flatMap_units hvmem).2 (List.mem_cons_of_mem _ hid)
        rw [Option.map_some, Option.map_some, hr.model, contents_swap_other hlt]
        intro id hid hid'
        exact hd (List.mem_cons_of_mem _ hid) (List.mem_cons_of_mem _ hid')

end Revised

/-- Any number of replacements. -/
theorem Revisions.revised {f g : Formulation α} {base : Model α} {b : Body}
    {table : List (List (Interval α))} {last : List (Interval α)} {w w' : Workspace α}
    {cs : List (Revision α)} (h : f.Kept base w.model b table last) (hbase : base.WellFormed)
    (hrun : Revisions f w cs g w') :
    ∃ b' table', g.Kept base w'.model b' table' last ∧ Revised f b w.model cs g b' w'.model := by
  induction hrun with
  | refl => exact ⟨b, table, h, .refl f b w.model⟩
  | @step cs c g g' v v' hrun hu hl hstep ih =>
    obtain ⟨b₁, table₁, hg, hrev⟩ := ih
    obtain ⟨b₂, k, i, us, u, j, hr⟩ := exists_replaced hstep
    obtain ⟨rfl, hg'⟩ := hg.revise hbase hr hu hl
    obtain ⟨-, hname, hshape⟩ := hrun.shape
    have hplace : f.place? c = some (k, i) := by
      rw [← place?_congr hshape]
      exact hr.place
    exact ⟨_, _, hg', hrev.step hg hname hplace hr hu hl⟩

/-! ### What only the last replacements matter for -/

section Last

variable {f g₁ g₂ : Formulation α} {b b₁ b₂ : Body} {m m₁ m₂ : Model α} {cs₁ cs₂ : List (Revision α)}

/-- Two runs with the same last replacement for every neuron lead to the same table. -/
theorem Revised.table_eq (h₁ : Revised f b m cs₁ g₁ b₁ m₁) (h₂ : Revised f b m cs₂ g₂ b₂ m₂)
    (hlast : ∀ p, f.lastAt? cs₁ p = f.lastAt? cs₂ p) : g₁.table = g₂.table := by
  refine eq_of_at? (h₁.widths.trans h₂.widths.symm) fun p => ?_
  rw [h₁.bounds, h₂.bounds, hlast]

/-- Two runs with the same last replacement for every neuron lead to the same rows, up to their order and
their numbers. -/
theorem Revised.perm_rows (h₁ : Revised f b m cs₁ g₁ b₁ m₁) (h₂ : Revised f b m cs₂ g₂ b₂ m₂)
    (hs₁ : b₁.switches.Nodup) (hs₂ : b₂.switches.Nodup)
    (hlast : ∀ p, f.lastAt? cs₁ p = f.lastAt? cs₂ p) :
    (m₁.rows.map Row.content).Perm (m₂.rows.map Row.content) := by
  have hcontents : b₁.contents m₁ = b₂.contents m₂ := by
    refine eq_of_at? ?_ fun p => ?_
    · have hlen := congrArg (List.map List.length) (h₁.shape.trans h₂.shape.symm)
      simp only [List.map_map, Function.comp_def, List.length_map] at hlen
      unfold Body.contents
      simp only [List.map_map, Function.comp_def, List.length_map]
      exact hlen
    · rw [h₁.rows, h₂.rows, hlast]
  have hflat : ∀ (b : Body) (m : Model α), (b.hidden.flatten.flatMap fun u => m.contents u.switches) =
      (b.contents m).flatten.flatten := by
    intro b m
    unfold Body.contents
    rw [← List.map_flatten, List.flatMap_def]
  refine (perm_contents hs₁).trans (List.Perm.trans ?_ (perm_contents hs₂).symm)
  rw [h₁.others, h₂.others, hflat, hflat, hcontents]

end Last

/-! ### Runs in another order -/

section Replay

variable {f g : Formulation α} {c : Revision α}

/-- Rows for a neuron are taken whatever its variables are and whatever else the model has. -/
theorem exists_commit_bigM {name layer neuron : Value} {x s z : VarId} {j : Interval α}
    {v v' : Workspace α} {ids : List RowId}
    (h : Action.commit (bigMBlocks name layer neuron x s z j) v = .ok ids v') (x' s' z' : VarId)
    (w : Workspace α) :
    ∃ ids' w', Action.commit (bigMBlocks name layer neuron x' s' z' j) w = .ok ids' w' := by
  have hok : (Action.commit (bigMBlocks name layer neuron x s z j)).succeeds v = true := by
    unfold Action.succeeds
    rw [h]
  refine Action.exists_of_succeeds ?_
  rw [Action.succeeds_commit] at hok ⊢
  exact hok

/-- Rows are renewed without a refusal if the bounds are numbers and the rows are taken. -/
theorem renewRows_of_used {name layer neuron : Value} {u : HiddenUnit} {upper lower : BoundArgument α}
    {j : Interval α} {w w' : Workspace α} {ids : List RowId} (hu : upper.used = .ok j.upper)
    (hl : lower.used = .ok j.lower)
    (h : Action.commit (bigMBlocks name layer neuron u.x u.s u.z j) w = .ok ids w') :
    renewRows name layer neuron u upper lower w = .ok ⟨u.moved w.model.nextRow, none⟩ w' := by
  have hbase : (nextRow : Action α RowId) w = .ok w.model.nextRow w := rfl
  unfold renewRows
  rw [Action.bind_of_eq_ok hbase, hu, hl]
  dsimp only
  rw [Action.bind_of_eq_ok (attempt_of_eq_ok h)]
  rfl

omit [Scalar α] in
/-- Whether bounds of a single neuron are stored depends on the bounds only. -/
theorem refusal_storeBounds (f g : Formulation α) (k i : Nat) (upper lower : BoundArgument α) :
    (f.storeBounds k (.single i) upper lower).refusal =
      (g.storeBounds k (.single i) upper lower).refusal := by
  unfold Formulation.storeBounds Formulation.replaced
  cases upper.stored with
  | error fault => rfl
  | ok a =>
    cases lower.stored with
    | error fault => rfl
    | ok a' => rfl

/-- A replacement that succeeds for one formulation does so for any other with the same name and the same
widths. -/
theorem Formulation.Replaced.again {m m' : Model α} {b : Body} {k i : Nat} {us : List HiddenUnit}
    {u : HiddenUnit} {j : Interval α} {f₂ : Formulation α} (h : f.Replaced c m b k i us u j g m')
    (hname : f₂.name = f.name) (hshape : f₂.hidden.map List.length = f.hidden.map List.length)
    (w : Workspace α) :
    ∃ g₂ w', f₂.replaceBigM c.layer c.neuron c.upper c.lower w = .ok ⟨g₂, none⟩ w' := by
  obtain ⟨hk, hi⟩ := place?_eq_some.1 ((place?_congr hshape c).trans h.place)
  obtain ⟨a, ha⟩ := h.whole
  obtain ⟨v, ids, v', hcommit⟩ := h.taken
  obtain ⟨u₂, hu₂⟩ : ∃ u₂, ((f₂.hidden[k]?).getD [])[i]? = some u₂ :=
    ⟨_, List.getElem?_eq_getElem (neuronPosition_lt hi)⟩
  have hdrop : Action.dropRows [u₂.upperRow, u₂.lowerRow] w =
      .ok () (w.withWaiting (w.model.removeRows [u₂.upperRow, u₂.lowerRow])) := rfl
  obtain ⟨ids', w', hcommit'⟩ := exists_commit_bigM hcommit u₂.x u₂.s u₂.z
    (w.withWaiting (w.model.removeRows [u₂.upperRow, u₂.lowerRow]))
  rw [← hname] at hcommit'
  have hrenew := renewRows_of_used h.upper h.lower hcommit'
  have hstored := (refusal_storeBounds f₂ f k i c.upper c.lower).trans h.stored
  have hnumber := h.number
  obtain ⟨layer, neuron, upper, lower⟩ := c
  refine ⟨(f₂.storeBounds k (.single i) upper lower).result.withUnit k i
    (u₂.moved (w.withWaiting (w.model.removeRows [u₂.upperRow, u₂.lowerRow])).model.nextRow), w', ?_⟩
  unfold Formulation.replaceBigM
  rw [Action.bind_of_eq_ok (Action.ofExcept_eq_ok.2 ⟨hk, rfl⟩)]
  dsimp only
  rw [Action.bind_of_eq_ok (Action.ofExcept_eq_ok.2 ⟨hi, rfl⟩), hu₂]
  dsimp only
  rw [Action.bind_of_eq_ok hdrop, ha]
  dsimp only
  cases neuron with
  | bool t => exact absurd rfl (hnumber t)
  | null | int _ | real _ | text _ | list _ | record _ =>
    unfold Formulation.Selection.ofValue
    dsimp only
    rw [hstored]
    dsimp only
    rw [Action.bind_of_eq_ok hrenew]
    rfl

/-- What succeeded once in a run succeeds for any formulation of the same name and the same widths. -/
theorem Revisions.again {w w' : Workspace α} {cs : List (Revision α)} {f₂ : Formulation α}
    (h : Revisions f w cs g w') (hc : c ∈ cs) (hname : f₂.name = f.name)
    (hshape : f₂.hidden.map List.length = f.hidden.map List.length) (v : Workspace α) :
    c.upper.Faithful ∧ c.lower.Faithful ∧
      ∃ g₂ v', f₂.replaceBigM c.layer c.neuron c.upper c.lower v = .ok ⟨g₂, none⟩ v' := by
  induction h with
  | refl => cases hc
  | @step cs c' g g' v₁ v₂ hrun hu hl hstep ih =>
    rcases List.mem_append.1 hc with hc | hc
    · exact ih hc
    · rw [List.mem_singleton.1 hc]
      obtain ⟨b, k, i, us, u, j, hr⟩ := exists_replaced hstep
      obtain ⟨-, hname', hshape'⟩ := hrun.shape
      exact ⟨hu, hl, hr.again (hname.trans hname'.symm) (hshape.trans hshape'.symm) v⟩

/-- The replacements of a run succeed in any order and any number of times. -/
theorem Revisions.replay {w w' : Workspace α} {cs : List (Revision α)} (h : Revisions f w cs g w')
    {cs' : List (Revision α)} (hcs : cs' ⊆ cs) : ∃ g' v', Revisions f w cs' g' v' := by
  induction cs' using List.reverseRecOn with
  | nil => exact ⟨f, w, .refl⟩
  | append_singleton cs' c ih =>
    obtain ⟨g', v', hrun⟩ := ih fun c hc => hcs (List.mem_append_left _ hc)
    have hc : c ∈ cs := hcs (List.mem_append_right _ List.mem_cons_self)
    obtain ⟨-, hname, hshape⟩ := hrun.shape
    obtain ⟨hu, hl, g₂, v₂, hstep⟩ := h.again hc hname hshape v'
    exact ⟨g₂, v₂, hrun.step hu hl hstep⟩

end Replay

end ReluMilp
