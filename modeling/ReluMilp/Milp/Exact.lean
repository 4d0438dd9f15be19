import ReluMilp.Milp.Feasible
import ReluMilp.Milp.Program

/-!
# Exact solving

Optimisation of small models in exact arithmetic.

* `Program.solve` — branching on variables that have to be whole, over linear programs;
* `resultWithin` — how a model ends within a slack;
* `Model.choices` — a model for every choice of the variables that vanish, of those that may;
  `feasible_iff_choices`, they admit together what the model admits;
* `solveExactly` — a solver for models. A time limit that is over at once ends without a point.

Numbers of a model are rounded, and rounding alone shall not exclude a point. A model without any
feasible point is tried again with a slack, a tolerance that is halved as long as there is a feasible
point. A model with whole variables is also searched for a point that lies within the largest slack
and is clearly better than the best one; what is best for its whole values is then found exactly.
-/

namespace ReluMilp

namespace Program

/-! ### Branching -/

/-- Steps of a loop over a tableau. -/
def steps : Nat := 20000

/-- The steps that are left for the loops to end, once others were taken to end soon. -/
def careful : Nat := 19600

/-- The best point found so far, and whether the search was complete. -/
structure Search where
  best : Option (Rat × Array Rat)
  complete : Bool

/-- The row that a variable heads; the objective heads one at any time. -/
def rowOf (t : Tableau) (v : Nat) : Nat := (t.rowOf? v).getD 0

/-- The best point over the values that a tableau allows. Of the two values around one that should
be whole, the nearer is tried first. -/
def explore (goal : Nat) (whole : List Nat) : Nat → Tableau → Search → Search
  | 0, _, found => { found with complete := false }
  | fuel + 1, t, found =>
    let hopeless (t : Tableau) : Bool := found.best.any fun b => t.valueOf goal ≤ b.1
    match t.repair (rowOf t goal) careful hopeless steps with
    | none => found
    | some t =>
      let t := t.settle (rowOf t goal) t.heads.size
      match t.raise (rowOf t goal) steps with
      | .endless => { found with complete := false }
      | .unfinished => { found with complete := false }
      | .largest t =>
        if hopeless t then found
        else
          let reached := t.valueOf goal
          match whole.find? fun v => (t.valueOf v).den ≠ 1 with
          | none =>
            let point := (Array.range t.value.size).map t.valueOf
            { found with best := some (reached, point) }
          | some v =>
            let a := t.valueOf v
            let floor := a.floor
            let low := t.restrict v (t.lowerOf v) (some (floor * t.units))
            let high := t.restrict v (some ((floor + 1) * t.units)) (t.upperOf v)
            if 2 * (a - floor) ≤ 1 then
              explore goal whole fuel high (explore goal whole fuel low found)
            else explore goal whole fuel low (explore goal whole fuel high found)

/-- How a program ends. -/
inductive Result where
  | best (value : Rat) (point : Array Rat)
  | infeasible
  /-- The objective has no bound; with whole variables some point is known. -/
  | endless (point : Option (Array Rat))
  | unfinished

/-- The better of two results; what is known of one alone decides nothing if the other is unfinished. -/
def Result.better : Result → Result → Result
  | .infeasible, r => r
  | r, .infeasible => r
  | .unfinished, _ => .unfinished
  | _, .unfinished => .unfinished
  | .endless point, _ => .endless point
  | _, .endless point => .endless point
  | .best a x, .best b y => if a < b then .best b y else .best a x

/-- The variable of the objective. -/
def goalOf (p : Program) : Nat := p.spans.size + p.rows.length

/-- The largest objective without regard to whole variables; `none` if there is no feasible point. -/
def relaxed (p : Program) : Option Tableau.Raised :=
  if p.spans.any Span.isEmpty || p.rows.any (fun r => r.2.isEmpty) then none
  else
    let goal := p.goalOf
    let first := p.tableau
    (first.repair (rowOf first goal) careful (fun _ => false) steps).map fun t =>
      let t := t.settle (rowOf t goal) t.heads.size
      t.raise (rowOf t goal) steps

/-- How often a search may branch on its way to a point. -/
def depth : Nat := 2000

/-- The best point of a program. If the objective has no bound over the linear program, any point
shows that it has none over the program either. -/
def solve (p : Program) : Result :=
  match p.relaxed with
  | none => .infeasible
  | some .unfinished => .unfinished
  | some .endless =>
    let idle := { p with goal := [] }
    match (explore p.goalOf p.whole depth idle.tableau ⟨none, true⟩).best with
    | some (_, point) => .endless (if p.whole.isEmpty then none else some point)
    | none => .infeasible
  | some (.largest t) =>
    let found := explore p.goalOf p.whole depth t ⟨none, true⟩
    match found.best with
    | some (value, point) => if found.complete then .best value point else .unfinished
    | none => if found.complete then .infeasible else .unfinished

/-- The best point of a program, if its value is above the one that is given. -/
def above? (p : Program) (value : Rat) : Option (Array Rat) :=
  match p.relaxed with
  | some (.largest t) =>
    match (explore p.goalOf p.whole depth t ⟨some (value, #[]), true⟩).best with
    | some (reached, point) => if value < reached then some point else none
    | none => none
  | _ => none

/-- A program with its whole variables kept at the values of a point. -/
def keeping (p : Program) (point : Array Rat) : Program :=
  { p with spans := p.whole.foldl (fun spans k =>
      let a := point.getD k 0
      spans.setIfInBounds k ⟨some a, some a⟩) p.spans }

/-- Whether a program may have a feasible point; it has none if the search ends without one. -/
def mayHold (p : Program) : Bool :=
  match { p with goal := [] }.solve with
  | .infeasible => false
  | _ => true

end Program

/-! ### Models -/

variable {α : Type} [Scalar α]

/-- A point of a program as an assignment of the variables of its model. -/
def assignmentOf (m : Model α) (point : Array Rat) : Assignment α :=
  let ids := (m.vars.map (·.id)).toArray
  let values : Array α := point.map Scalar.ofRat
  fun id => ((ids.findIdx? (· = id)).bind (values[·]?)).getD 0

/-- The last number from `low` on that a test holds of, below `high`; it holds of `low` and, from one
number on, no more. -/
def lastHolding (test : Nat → Bool) : Nat → Nat → Nat → Nat
  | 0, low, _ => low
  | fuel + 1, low, high =>
    let middle := (low + high) / 2
    if test middle then lastHolding test fuel middle high else lastHolding test fuel low middle

/-- A slack by its exponent. -/
def slack (k : Nat) : Rat := Program.tolerance / 2 ^ k

/-- The exponent of the largest slack that is tried. -/
def coarse : Nat := 0

/-- The exponent below the smallest slack that is tried. -/
def fine : Nat := 40

/-- The program of a model with a slack, the whole variables kept at a point if one is given. -/
def programWithin (m : Model α) (kept : Option (Array Rat)) (slack : Rat) : Option Program :=
  (Program.ofModel m slack).map fun p => kept.elim p p.keeping

/-- How a model ends with a slack. -/
def resultWithin (m : Model α) (kept : Option (Array Rat)) (slack : Rat) : Program.Result :=
  (programWithin m kept slack).elim .infeasible Program.solve

/-- Whether a model may have a feasible point within a slack. -/
def mayHoldWithin (m : Model α) (kept : Option (Array Rat)) (k : Nat) : Bool :=
  (programWithin m kept (slack k)).any Program.mayHold

/-- How a model ends within the least slack for which it has a feasible point. -/
def leastResult (m : Model α) (kept : Option (Array Rat)) : Program.Result :=
  match resultWithin m kept 0 with
  | .infeasible =>
    if mayHoldWithin m kept coarse then
      resultWithin m kept (slack (lastHolding (mayHoldWithin m kept) 6 coarse fine))
    else .infeasible
  | r => r

/-- How a model ends at the whole values of a point within the largest slack, if the value lies
clearly above the one that is given. -/
def excludedPoint (m : Model α) (value : Rat) : Option Program.Result := do
  let p ← Program.ofModel m (slack coarse)
  if p.whole.isEmpty then none
  else
    let clear := value + slack coarse
    match leastResult m (some (← p.above? clear)) with
    | .best reached point => if clear < reached then some (.best reached point) else none
    | _ => none

/-- How a model ends, up to rounding, if no variable of it may vanish. -/
def roundedResult (m : Model α) : Program.Result :=
  match leastResult m none with
  | .best value point => (excludedPoint m value).getD (.best value point)
  | r => r

/-- The kind of the values that a variable takes between its bounds. -/
def VarKind.within : VarKind → VarKind
  | semicontinuous => continuous
  | semiinteger => integer
  | kind => kind

/-- A variable that may vanish as one that lies between its bounds and as one that is zero. -/
def Variable.choices (v : Variable α) : List (Variable α) :=
  if v.kind.mayVanish then
    [{ v with kind := v.kind.within },
      { v with kind := .continuous, lower := .finite 0, upper := .finite 0 }]
  else [v]

/-- The choices of each of some variables. -/
def choicesOf : List (Variable α) → List (List (Variable α))
  | [] => [[]]
  | v :: vs => v.choices.flatMap fun u => (choicesOf vs).map (u :: ·)

/-- The models in which every variable that may vanish either does or lies between its bounds. -/
def Model.choices (m : Model α) : List (Model α) :=
  (choicesOf m.vars).map fun vs => { m with vars := vs }

theorem Variable.admits_iff_choices (v : Variable Rat) (a : Rat) :
    v.Admits a ↔ ∃ u ∈ v.choices, u.Admits a := by
  unfold choices
  split
  · have hzero : (0 ≤ a ∧ a ≤ 0) ↔ a = 0 :=
      ⟨fun h => Rat.le_antisymm h.2 h.1, fun h => by simp [h]⟩
    cases hk : v.kind <;>
      simp_all [Admits, VarKind.mayVanish, VarKind.within, VarKind.Suits, Limit.AtMost, Limit.AtLeast, or_comm]
  · simp

theorem Variable.id_of_mem_choices {u v : Variable α} (h : u ∈ v.choices) : u.id = v.id := by
  unfold choices at h
  split at h
  · simp only [List.mem_cons, List.not_mem_nil, or_false] at h
    rcases h with rfl | rfl <;> rfl
  · rw [List.mem_singleton.1 h]

theorem admits_iff_choicesOf (vs : List (Variable Rat)) (x : Assignment Rat) :
    (∀ v ∈ vs, v.Admits (x v.id)) ↔ ∃ us ∈ choicesOf vs, ∀ u ∈ us, u.Admits (x u.id) := by
  induction vs with
  | nil => simp [choicesOf]
  | cons v vs ih =>
    rw [List.forall_mem_cons, ih, v.admits_iff_choices]
    constructor
    · rintro ⟨⟨u, hu, ha⟩, us, hus, has⟩
      rw [← Variable.id_of_mem_choices hu] at ha
      exact ⟨u :: us, List.mem_flatMap.2 ⟨u, hu, List.mem_map_of_mem hus⟩, List.forall_mem_cons.2 ⟨ha, has⟩⟩
    · rintro ⟨_, hmem, hall⟩
      obtain ⟨u, hu, hmem⟩ := List.mem_flatMap.1 hmem
      obtain ⟨us, hus, rfl⟩ := List.mem_map.1 hmem
      obtain ⟨ha, has⟩ := List.forall_mem_cons.1 hall
      rw [Variable.id_of_mem_choices hu] at ha
      exact ⟨⟨u, hu, ha⟩, us, hus, has⟩

/-- A model admits what the models for its choices admit together. -/
theorem Model.feasible_iff_choices (m : Model Rat) (x : Assignment Rat) :
    m.Feasible x ↔ ∃ c ∈ m.choices, c.Feasible x := by
  unfold Feasible choices
  rw [admits_iff_choicesOf]
  constructor
  · rintro ⟨⟨vs, hvs, hall⟩, hrows⟩
    exact ⟨_, List.mem_map_of_mem hvs, hall, hrows⟩
  · rintro ⟨_, hc, hall, hrows⟩
    obtain ⟨vs, hvs, rfl⟩ := List.mem_map.1 hc
    exact ⟨⟨vs, hvs, hall⟩, hrows⟩

/-- How a model ends, up to rounding. -/
def bestResult (m : Model α) : Program.Result :=
  (m.choices.map roundedResult).foldl .better .infeasible

/-- A solver that finds the exact optimum, up to what rounding does to a model. -/
def solveExactly : Solver α := fun _ m =>
  if m.parameters.expired then .ok ⟨.timeLimit, 0, 0, none⟩
  else
    match bestResult m with
    | .infeasible => .ok ⟨.infeasible, 0, 0, none⟩
    | .endless point => .ok ⟨.unbounded, 0, 0, point.map (assignmentOf m)⟩
    | .unfinished => .ok ⟨.other 12, 0, 0, none⟩
    | .best value point =>
      let value := if m.objective.maximize then value else -value
      let constant := m.objective.expression.constant
      let total := match Scalar.toRat? constant with
        | some c => Scalar.ofRat (value + c)
        | none => constant
      .ok ⟨.optimal, total, total, some (assignmentOf m point)⟩

end ReluMilp
