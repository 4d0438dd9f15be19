import ReluMilp.Proofs.Blame

/-!
# Preconditions

Arguments are refused for exactly the reasons that are published, and before anything is added to a model.

* `Checks` — a computation that blames a parameter exactly if something is wrong; `Checks.bind`;
* `checks_mode`, `checks_vector`, `checks_box`, `checks_table` — the checks one by one;
* `BuildArguments.Numeric` — arguments that hold arrays of numbers, or nothing; `numeric_ofValue`;
* `BuildArguments.Unfit`, `checks_request` — all that can be wrong with them;
* `parameters_checked_first` — a build blames a parameter exactly then, and leaves the model alone.
-/

namespace ReluMilp

/-! ### Checks -/

section

variable {β γ : Type} {e : Except Fault β} {p q : Prop}

/-- A computation blames a parameter if something is wrong, and has a result if nothing is. -/
structure Checks (e : Except Fault β) (wrong : Prop) : Prop where
  fails : wrong → ∃ c, e = .error (.parameter c)
  passes : ¬wrong → ∃ b, e = .ok b

theorem Checks.of_ok {b : β} (h : e = .ok b) (hp : ¬p) : Checks e p :=
  ⟨fun hw => absurd hw hp, fun _ => ⟨b, h⟩⟩

theorem Checks.of_error {c : ParameterCause} (h : e = .error (.parameter c)) (hp : p) : Checks e p :=
  ⟨fun _ => ⟨c, h⟩, fun hw => absurd hp hw⟩

theorem Checks.congr (h : Checks e p) (hpq : p ↔ q) : Checks e q :=
  ⟨fun hq => h.fails (hpq.2 hq), fun hq => h.passes fun hp => hq (hpq.1 hp)⟩

theorem checks_ite [Decidable p] (b : β) (c : ParameterCause) :
    Checks (if p then .ok b else .error (.parameter c)) (¬p) := by
  by_cases hp : p
  · exact .of_ok (if_pos hp) (not_not_intro hp)
  · exact .of_error (if_neg hp) hp

/-- Of two checks, the second is only made if the first one passed. -/
theorem Checks.bind {f : β → Except Fault γ} (h : Checks e p) (hf : ∀ b, e = .ok b → Checks (f b) q) :
    Checks (e >>= f) (p ∨ q) := by
  by_cases hp : p
  · obtain ⟨c, rfl⟩ := h.fails hp
    exact .of_error rfl (.inl hp)
  · obtain ⟨b, rfl⟩ := h.passes hp
    exact (hf b rfl).congr (or_iff_right hp).symm

end

/-! ### Modes -/

theorem mode_eq_ok {v : Value} {m : Mode} (h : Mode.ofValue v = .ok m) : lower v.asText = m.name := by
  unfold Mode.ofValue at h
  split at h
  · rename_i hm
    cases h
    have hname := List.find?_some hm
    exact (of_decide_eq_true hname).symm
  · cases h

/-- A value names none of the modes. -/
def Value.NamesNoMode (v : Value) : Prop := ∀ m : Mode, lower v.asText ≠ m.name

theorem checks_mode (v : Value) : Checks (Mode.ofValue v) v.NamesNoMode := by
  cases h : Mode.ofName? (lower v.asText) with
  | some m =>
    have hm : Mode.ofValue v = .ok m := by
      unfold Mode.ofValue
      rw [h]
    exact .of_ok hm fun hnone => hnone m (mode_eq_ok hm)
  | none =>
    have herror : Mode.ofValue v = .error (.parameter (.unknownMode v.asText)) := by
      unfold Mode.ofValue
      rw [h]
    refine .of_error herror fun m hm => ?_
    have hall := List.find?_eq_none.1 h m (by cases m <;> simp)
    exact hall (decide_eq_true hm.symm)

/-! ### Vectors -/

section

variable {α : Type}

/-- A vector is missing, or has another number of entries. -/
def Misfit (n : Nat) (v : Option (Reading α)) : Prop :=
  v = none ∨ ∃ t, v = some (.ok t) ∧ t.entries.length ≠ n

theorem checks_vector (which : BoundVector) (n : Nat) {v : Option (Reading α)}
    (hv : ∀ r ∈ v, ∃ t, r = .ok t) : Checks (BuildArguments.vector which n v) (Misfit n v) := by
  cases v with
  | none => exact .of_error rfl (.inl rfl)
  | some r =>
    obtain ⟨t, rfl⟩ := hv r rfl
    have hcheck : Checks (BuildArguments.vector which n (some (.ok t))) (¬t.entries.length = n) :=
      checks_ite t.entries _
    refine hcheck.congr ⟨fun hlen => .inr ⟨t, rfl, hlen⟩, ?_⟩
    rintro (hnone | ⟨_, ht, hlen⟩)
    · cases hnone
    · cases ht
      exact hlen

/-! ### Tables -/

/-- A layer of a given table has as many entries as it should. -/
def LayerArgument.Counts (a : LayerArgument α) (n : Nat) : Prop :=
  ∃ t, a.reading = .ok t ∧ t.entries.length = n

/-- A layer of a given table is an array of numbers. -/
def LayerArgument.Numeric (a : LayerArgument α) : Prop :=
  ∃ t, a.reading = .ok t ∧ a.size = .ok t.entries.length

/-- One side of a table is missing or is a list of arrays of numbers. -/
def TableArgument.Numeric : TableArgument α → Prop
  | .absent => True
  | .unsized => False
  | .layers items => ∀ a ∈ items, a.Numeric

/-- One side of a table has not one array per layer with the entries of that layer. -/
def TableArgument.Misfit (ns : List Nat) : TableArgument α → Prop
  | .layers items => ¬List.Forall₂ LayerArgument.Counts items ns
  | _ => False

/-- Only one side of a table is given. -/
def OneSided (upper lower : TableArgument α) : Prop :=
  (upper = .absent ∧ lower ≠ .absent) ∨ (upper ≠ .absent ∧ lower = .absent)

theorem LayerArgument.Numeric.faithful {a : LayerArgument α} (h : a.Numeric) : a.Faithful := by
  obtain ⟨t, ht, hn⟩ := h
  intro t' n ht' hn'
  rw [ht] at ht'
  rw [hn] at hn'
  cases ht'
  cases hn'
  rfl

theorem TableArgument.Numeric.faithful {t : TableArgument α} (h : t.Numeric) : t.Faithful := by
  cases t with
  | absent => trivial
  | unsized => trivial
  | layers items => exact fun a ha => (h a ha).faithful

/-- Lists of values that are read as arrays of numbers. -/
theorem numeric_ofValue {v : Value} {items : List Value} (hv : v.items? = some items)
    (hread : ∀ i ∈ items, ∃ t, Tensor.ofValue i = .ok t) : (TableArgument.ofValue v).Numeric := by
  have hlayers : TableArgument.ofValue v =
      .layers (items.map fun i => ⟨i.shape.map volume, Tensor.ofValue i⟩) := by
    unfold TableArgument.ofValue
    split
    · cases hv
    · rw [hv]
  rw [hlayers]
  intro a ha
  obtain ⟨i, hi, rfl⟩ := List.mem_map.1 ha
  obtain ⟨t, ht⟩ := hread i hi
  obtain ⟨s, hs, hnested⟩ := Except.bind_eq_ok.1 ht
  refine ⟨t, ht, ?_⟩
  dsimp only
  rw [hs, t.length_eq, shape_nested hnested hs]
  rfl

theorem checks_widths (side : Side) (k : Nat) {as : List (LayerArgument α)} {ns : List Nat}
    (has : ∀ a ∈ as, a.Numeric) (hlen : as.length = ns.length) :
    Checks (BuildArguments.checkWidths side k as ns) (¬List.Forall₂ LayerArgument.Counts as ns) := by
  induction as generalizing k ns with
  | nil =>
    obtain rfl := List.length_eq_zero_iff.1 hlen.symm
    exact .of_ok rfl (not_not_intro .nil)
  | cons a as ih =>
    cases ns with
    | nil => cases hlen
    | cons n ns =>
      obtain ⟨t, ht, hsize⟩ := has a List.mem_cons_self
      have hrest := ih (k + 1) (fun b hb => has b (List.mem_cons_of_mem a hb)) (Nat.succ.inj hlen)
      unfold BuildArguments.checkWidths
      rw [hsize, List.forall₂_cons]
      by_cases hn : t.entries.length = n
      · have hcounts : a.Counts n := ⟨t, ht, hn⟩
        show Checks (if t.entries.length = n then _ else _) _
        rw [if_pos hn]
        exact hrest.congr (not_congr (and_iff_right hcounts).symm)
      · refine .of_error (if_neg hn) ?_
        rintro ⟨⟨t', ht', hn'⟩, -⟩
        rw [ht] at ht'
        cases ht'
        exact hn hn'

theorem checks_side (side : Side) (ns : List Nat) {items : List (LayerArgument α)}
    (hitems : ∀ a ∈ items, a.Numeric) :
    Checks (BuildArguments.checkSide side ns (.layers items)) ((TableArgument.layers items).Misfit ns) := by
  unfold BuildArguments.checkSide
  show Checks (if items.length = ns.length then _ else _) _
  by_cases hlen : items.length = ns.length
  · rw [if_pos hlen]
    refine ((checks_widths side 1 hitems hlen).bind fun u _ => ?_).congr (iff_of_eq (or_false _))
    exact .of_ok rfl id
  · rw [if_neg hlen]
    exact .of_error rfl fun hall => hlen hall.length_eq

/-- The arrays of numbers of one side are read. -/
theorem reading_succeeds {items : List (LayerArgument α)} (hitems : ∀ a ∈ items, a.Numeric) :
    ∃ ts, items.mapM (m := Except Fault) (·.reading) = .ok ts := by
  cases hread : items.mapM (m := Except Fault) (·.reading) with
  | ok ts => exact ⟨ts, rfl⟩
  | error f =>
    obtain ⟨a, ha, herror⟩ := mapM_eq_error hread
    obtain ⟨t, ht, -⟩ := hitems a ha
    rw [ht] at herror
    cases herror

theorem checks_table (ns : List Nat) {upper lower : TableArgument α} (hu : upper.Numeric)
    (hl : lower.Numeric) :
    Checks (BuildArguments.table ns upper lower)
      (OneSided upper lower ∨ upper.Misfit ns ∨ lower.Misfit ns) := by
  cases upper with
  | unsized => exact hu.elim
  | absent =>
    cases lower with
    | unsized => exact hl.elim
    | absent =>
      refine .of_ok rfl ?_
      rintro ((⟨-, h⟩ | ⟨h, -⟩) | h | h)
      · exact h rfl
      · exact h rfl
      · exact h
      · exact h
    | layers ls => exact .of_error rfl (.inl (.inl ⟨rfl, nofun⟩))
  | layers us =>
    cases lower with
    | unsized => exact hl.elim
    | absent => exact .of_error rfl (.inl (.inr ⟨nofun, rfl⟩))
    | layers ls =>
      have hboth : ¬OneSided (.layers us) (.layers ls) := by
        rintro (⟨h, -⟩ | ⟨-, h⟩)
        · cases h
        · cases h
      have hsides : Checks (BuildArguments.table ns (.layers us) (.layers ls))
          ((TableArgument.layers us).Misfit ns ∨ (TableArgument.layers ls).Misfit ns ∨ False) := by
        refine (checks_side .upper ns hu).bind fun us' hus => ?_
        refine (checks_side .lower ns hl).bind fun ls' hls => ?_
        cases (checkSide_eq_ok hus).1
        cases (checkSide_eq_ok hls).1
        obtain ⟨uts, huts⟩ := reading_succeeds hu
        obtain ⟨lts, hlts⟩ := reading_succeeds hl
        rw [huts, hlts]
        exact .of_ok rfl id
      refine hsides.congr ?_
      rw [or_false, or_iff_right hboth]

/-! ### The box -/

variable [Scalar α]

/-- A vector has an entry that is not finite. -/
def HasInfinite (v : Option (Reading α)) : Prop :=
  ∃ t x, v = some (.ok t) ∧ x ∈ t.entries ∧ Scalar.isFinite x = false

/-- Some lower bound is above its upper bound. -/
def Crossed (upper lower : Option (Reading α)) : Prop :=
  ∃ (tu tl : Tensor α) (i : Nat) (u l : α), upper = some (.ok tu) ∧ lower = some (.ok tl) ∧
    tu.entries[i]? = some u ∧ tl.entries[i]? = some l ∧ Scalar.less u l = true

theorem hasInfinite_iff {v : Option (Reading α)} {n : Nat} {es : List α} (hv : Reads v n es) :
    HasInfinite v ↔ ¬es.all Scalar.isFinite = true := by
  obtain ⟨t, rfl, rfl, -⟩ := hv
  simp only [List.all_eq_true, not_forall, Bool.not_eq_true]
  constructor
  · rintro ⟨_, x, ht, hx, hinf⟩
    cases ht
    exact ⟨x, hx, hinf⟩
  · rintro ⟨x, hx, hinf⟩
    exact ⟨t, x, rfl, hx, hinf⟩

theorem crossed_iff {upper lower : Option (Reading α)} {n : Nat} {us ls : List α} (hu : Reads upper n us)
    (hl : Reads lower n ls) :
    Crossed upper lower ↔ (List.zipWith (fun u l => Scalar.less u l) us ls).any id = true := by
  obtain ⟨tu, rfl, rfl, -⟩ := hu
  obtain ⟨tl, rfl, rfl, -⟩ := hl
  rw [List.any_eq_true]
  constructor
  · rintro ⟨_, _, i, u, l, htu, htl, hi, hi', hless⟩
    cases htu
    cases htl
    exact ⟨true, List.mem_of_getElem? (List.getElem?_zipWith_eq_some.2 ⟨u, l, hi, hi', hless⟩), rfl⟩
  · rintro ⟨b, hb, rfl⟩
    obtain ⟨i, hi⟩ := List.mem_iff_getElem?.1 hb
    obtain ⟨u, l, hu, hl, hless⟩ := List.getElem?_zipWith_eq_some.1 hi
    exact ⟨tu, tl, i, u, l, rfl, rfl, hu, hl, hless⟩

theorem checks_box {upper lower : Option (Reading α)} {n : Nat} {us ls : List α} (hu : Reads upper n us)
    (hl : Reads lower n ls) :
    Checks (BuildArguments.box us ls) ((HasInfinite upper ∨ HasInfinite lower) ∨ Crossed upper lower) := by
  rw [hasInfinite_iff hu, hasInfinite_iff hl, crossed_iff hu hl]
  by_cases hfinite : us.all Scalar.isFinite = true ∧ ls.all Scalar.isFinite = true
  · obtain ⟨hus, hls⟩ := hfinite
    by_cases hcross : (List.zipWith (fun u l => Scalar.less u l) us ls).any id = true
    · have herror : BuildArguments.box us ls = .error (.parameter .boxCrossed) := by
        simp [BuildArguments.box, hus, hls, hcross]
      exact .of_error herror (.inr hcross)
    · have hok : BuildArguments.box us ls = .ok (Interval.ofLists us ls) := by
        simp only [BuildArguments.box, hus, hls, hcross]
        rfl
      exact .of_ok hok (by simp [hus, hls, hcross])
  · have herror : BuildArguments.box us ls = .error (.parameter .boxNotFinite) := by
      rw [← Bool.and_eq_true_iff, Bool.not_eq_true] at hfinite
      simp [BuildArguments.box, hfinite]
    exact .of_error herror (.inl (not_and_or.1 hfinite))

/-! ### Requests -/

/-- Vectors of arguments are missing or arrays of numbers, and so are the sides of its table, layer by
layer. -/
structure BuildArguments.Numeric (a : BuildArguments α) : Prop where
  vectors : ∀ v ∈ [a.inputUpper, a.inputLower, a.outputUpper, a.outputLower], ∀ r ∈ v, ∃ t, r = .ok t
  upper : a.boundsUpper.Numeric
  lower : a.boundsLower.Numeric

/-- All that can be wrong with arguments for a network. -/
inductive BuildArguments.Unfit (a : BuildArguments α) (n : Network α) : Prop
  | mode : a.mode.NamesNoMode → Unfit a n
  | input {v : Option (Reading α)} : v ∈ [a.inputUpper, a.inputLower] → Misfit n.inputs v → Unfit a n
  | infinite {v : Option (Reading α)} : v ∈ [a.inputUpper, a.inputLower] → HasInfinite v → Unfit a n
  | crossed : Crossed a.inputUpper a.inputLower → Unfit a n
  | oneSided : OneSided a.boundsUpper a.boundsLower → Unfit a n
  | table {t : TableArgument α} : t ∈ [a.boundsUpper, a.boundsLower] → t.Misfit n.neuronCount → Unfit a n
  | output {v : Option (Reading α)} : lower a.mode.asText = Mode.output.name →
      v ∈ [a.outputUpper, a.outputLower] → Misfit n.outputs v → Unfit a n

omit [Scalar α] in
theorem BuildArguments.Numeric.faithful {a : BuildArguments α} (h : a.Numeric) : a.Faithful :=
  ⟨h.upper.faithful, h.lower.faithful⟩

/-- What can be wrong, in the order of the checks. -/
theorem BuildArguments.unfit_iff (a : BuildArguments α) (n : Network α) :
    a.mode.NamesNoMode ∨ Misfit n.inputs a.inputUpper ∨ Misfit n.inputs a.inputLower ∨
      ((HasInfinite a.inputUpper ∨ HasInfinite a.inputLower) ∨ Crossed a.inputUpper a.inputLower) ∨
      (OneSided a.boundsUpper a.boundsLower ∨ a.boundsUpper.Misfit n.neuronCount ∨
        a.boundsLower.Misfit n.neuronCount) ∨
      lower a.mode.asText = Mode.output.name ∧
        (Misfit n.outputs a.outputUpper ∨ Misfit n.outputs a.outputLower) ↔ a.Unfit n := by
  constructor
  · rintro (h | h | h | ((h | h) | h) | (h | h | h) | ⟨hmode, h | h⟩)
    · exact .mode h
    · exact .input (by simp) h
    · exact .input (by simp) h
    · exact .infinite (by simp) h
    · exact .infinite (by simp) h
    · exact .crossed h
    · exact .oneSided h
    · exact .table (by simp) h
    · exact .table (by simp) h
    · exact .output hmode (by simp) h
    · exact .output hmode (by simp) h
  · intro h
    cases h with
    | mode h => exact .inl h
    | input hv h => rcases List.mem_pair.1 hv with rfl | rfl <;> simp [h]
    | infinite hv h => rcases List.mem_pair.1 hv with rfl | rfl <;> simp [h]
    | crossed h => simp [h]
    | oneSided h => simp [h]
    | table ht h => rcases List.mem_pair.1 ht with rfl | rfl <;> simp [h]
    | output hmode hv h => rcases List.mem_pair.1 hv with rfl | rfl <;> simp [hmode, h]

/-- The request of arguments blames a parameter exactly if something is wrong with them. -/
theorem checks_request {a : BuildArguments α} {n : Network α} (hnet : a.network = .ok n)
    (ha : a.Numeric) : Checks a.request (a.Unfit n) := by
  refine Checks.congr ?_ (a.unfit_iff n)
  unfold BuildArguments.request
  rw [hnet]
  refine (checks_mode a.mode).bind fun mode hmode => ?_
  refine (checks_vector .inputUpper n.inputs (ha.vectors _ (by simp))).bind fun us hus => ?_
  refine (checks_vector .inputLower n.inputs (ha.vectors _ (by simp))).bind fun ls hls => ?_
  refine (checks_box (vector_eq_ok hus) (vector_eq_ok hls)).bind fun box _ => ?_
  refine (checks_table n.neuronCount ha.upper ha.lower).bind fun given _ => ?_
  have hname := mode_eq_ok hmode
  cases mode with
  | fast =>
    refine .of_ok rfl fun h => ?_
    have heq : Mode.fast.name = Mode.output.name := hname.symm.trans h.1
    exact absurd heq (by decide)
  | standard =>
    refine .of_ok rfl fun h => ?_
    have heq : Mode.standard.name = Mode.output.name := hname.symm.trans h.1
    exact absurd heq (by decide)
  | output =>
    have hupper := checks_vector .outputUpper n.outputs (ha.vectors a.outputUpper (by simp))
    have hlower := checks_vector .outputLower n.outputs (ha.vectors a.outputLower (by simp))
    rw [and_iff_right hname]
    refine hupper.bind fun us' _ => ?_
    refine (hlower.bind fun ls' _ => ?_).congr (iff_of_eq (or_false _))
    exact .of_ok rfl id

/-! ### Builds -/

/-- Arguments that hold arrays of numbers, finite or not, are refused with a fault that blames a parameter
exactly if they are unfit for the network, whatever the model and whatever was done with it. With such a fault
nothing in the model is other than it was but the parameters that the settings bring. No build of an accepted
request ends with such a fault, so that there is none from the first variable on. -/
theorem parameters_checked_first {solver : Solver α} {settings : Option Settings} {a : BuildArguments α}
    {n : Network α} {w : Workspace α} (hs : solver.Blameless) (hset : ∀ s ∈ settings, s.Accepted)
    (hnet : a.network = .ok n) (ha : a.Numeric) :
    ((∃ c v, formulateNetwork solver settings a w = .error (.parameter c) v) ↔ a.Unfit n) ∧
      (∀ c v, formulateNetwork solver settings a w = .error (.parameter c) v →
        v = { w with model := { w.model with parameters := v.model.parameters } }) ∧
      ∀ r, ({ a with settings := settings.getD .default } : BuildArguments α).request = .ok r →
        ∀ u c v, r.build solver u ≠ .error (.parameter c) v := by
  have hchecks : Checks ({ a with settings := settings.getD .default } : BuildArguments α).request (a.Unfit n) :=
    (checks_request (a := { a with settings := settings.getD .default }) hnet
      ⟨ha.vectors, ha.upper, ha.lower⟩).congr ((BuildArguments.unfit_iff _ n).symm.trans (a.unfit_iff n))
  have hbuild : ∀ r, ({ a with settings := settings.getD .default } : BuildArguments α).request = .ok r →
      ∀ u c v, r.build solver u ≠ .error (.parameter c) v := by
    intro r hr u c v hfault
    have hjobs : ∀ f, r.jobs = .none f → f.blames = false := by
      intro f hf
      rw [(request_settings hr).2] at hf
      exact Jobs.ofValue_blameless hf
    have hwf := (request_eq_ok hr).wellFormed ha.faithful
    cases Request.build_blameless ⟨hs, hjobs⟩ hwf u _ v hfault
  obtain ⟨p, herror, hok⟩ := formulateNetwork_eq hset solver a w
  by_cases hunfit : a.Unfit n
  · obtain ⟨c, hc⟩ := hchecks.fails hunfit
    rw [herror _ hc]
    refine ⟨iff_of_true ⟨c, _, rfl⟩ hunfit, fun c' v hv => ?_, hbuild⟩
    cases hv
    rfl
  · obtain ⟨r, hr⟩ := hchecks.passes hunfit
    rw [hok r hr]
    refine ⟨iff_of_false ?_ hunfit, fun c v hv => absurd hv (hbuild r hr _ c v), hbuild⟩
    rintro ⟨c, v, hv⟩
    exact hbuild r hr _ c v hv

end

/-- A network of doubles that gives back what it reads. -/
def Network.echo : Network Float :=
  { name := .text "echo"
    hidden := []
    output := ⟨1, [⟨[1], 0⟩], .identity, by simp⟩
    hidden_relu := by simp
    output_identity := rfl
    chained := trivial }

/-- Arguments with an undefined upper bound of the input. -/
def BuildArguments.undefined : BuildArguments Float :=
  { network := .ok .echo
    mode := .text "FAST"
    settings := .default
    jobs := .int 1
    name := .null
    inputUpper := some (.ok (.ofVector [0 / 0]))
    inputLower := some (.ok (.ofVector [0]))
    boundsUpper := .absent
    boundsLower := .absent
    outputUpper := none
    outputLower := none }

/-- A solver that finds nothing. -/
def Solver.idle : Solver Float := fun _ _ => .ok ⟨.timeLimit, 0, 0, none⟩

/-- An undefined bound is not finite, although no lower bound is above it. -/
theorem parameters_checked_first_undefined :
    ∃ c v, formulateNetwork .idle (some { Settings.default with threads := 2 }) .undefined
        (.ofModel (.empty "model")) = .error (.parameter c) v ∧
      v.model.vars = [] ∧ v.model.rows = [] := by
  have hset : ∀ s ∈ some { Settings.default with threads := 2 }, s.Accepted := by
    intro s hs
    cases hs
    decide
  have hnumeric : BuildArguments.undefined.Numeric := by
    refine ⟨fun v hv r hr => ?_, trivial, trivial⟩
    simp [BuildArguments.undefined] at hv
    rcases hv with rfl | rfl | rfl
    · cases hr
      exact ⟨_, rfl⟩
    · cases hr
      exact ⟨_, rfl⟩
    · cases hr
  have hinfinite : HasInfinite BuildArguments.undefined.inputUpper :=
    ⟨.ofVector [0 / 0], 0 / 0, rfl, List.mem_singleton.2 rfl, by decide +kernel⟩
  have hunfit : BuildArguments.undefined.Unfit .echo := .infinite List.mem_cons_self hinfinite
  have hidle : Solver.idle.Blameless := nofun
  obtain ⟨hiff, hleft, -⟩ :=
    parameters_checked_first (w := .ofModel (.empty "model")) hidle hset rfl hnumeric
  obtain ⟨c, v, hrun⟩ := hiff.2 hunfit
  have hv := hleft c v hrun
  refine ⟨c, v, hrun, ?_, ?_⟩
  · rw [hv]
    rfl
  · rw [hv]
    rfl

end ReluMilp
