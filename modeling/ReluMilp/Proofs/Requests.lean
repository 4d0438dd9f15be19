import ReluMilp.Formulation.Request
import ReluMilp.Proofs.Optima

/-!
# What a request takes over from its arguments

* `BuildArguments.Faithful` — the sizes of given bounds are those of what is read from them;
  `faithful_ofValue`: bounds given as values are read with the sizes that they have;
* `BuildArguments.Asks`, `request_eq_ok` — how an accepted request follows from its arguments;
* `request_settings` — so do its settings and its jobs;
* `Request.WellFormed`, `Asks.wellFormed` — the bounds of a request have the widths of its network;
* `Asks.of_absent`, `Asks.plan_standard`, `Asks.plan_output` — no given bounds, and the plan of a mode;
* `BuildArguments.Admits`, `Asks.admits_iff` — the inputs that lie within the bounds of the arguments, and
  whose outputs do so if outputs are bounded;
* `Asks.exists_mem_box` — the box of an accepted request is not empty;
* `Network.absolute`, `BuildArguments.absolute` — a small network, and arguments for it.
-/

namespace ReluMilp

variable {α : Type}

/-! ### Vectors and tables -/

/-- A vector was read, and it has a length. -/
def Reads (v : Option (Reading α)) (length : Nat) (entries : List α) : Prop :=
  ∃ t, v = some (.ok t) ∧ t.entries = entries ∧ entries.length = length

theorem Reads.length_eq {v : Option (Reading α)} {length : Nat} {entries : List α}
    (h : Reads v length entries) : entries.length = length := by
  obtain ⟨_, _, _, hlen⟩ := h
  exact hlen

theorem Reads.unique {v : Option (Reading α)} {length : Nat} {entries entries' : List α}
    (h : Reads v length entries) (h' : Reads v length entries') : entries' = entries := by
  obtain ⟨t, rfl, rfl, -⟩ := h
  obtain ⟨_, ht, rfl, -⟩ := h'
  cases ht
  rfl

theorem vector_eq_ok {which : BoundVector} {n : Nat} {v : Option (Reading α)} {es : List α}
    (h : BuildArguments.vector which n v = .ok es) : Reads v n es := by
  unfold BuildArguments.vector at h
  cases v with
  | none => cases h
  | some r =>
    obtain ⟨t, rfl, hlen⟩ := Except.bind_eq_ok.1 h
    split at hlen
    · rename_i heq
      cases hlen
      exact ⟨t, rfl, rfl, heq⟩
    · cases hlen

/-- The size that was given is that of the entries that are read. -/
def LayerArgument.Faithful (a : LayerArgument α) : Prop :=
  ∀ t n, a.reading = .ok t → a.size = .ok n → t.entries.length = n

/-- All sizes of one side of a table are those of the entries that are read. -/
def TableArgument.Faithful : TableArgument α → Prop
  | .layers items => ∀ a ∈ items, a.Faithful
  | _ => True

/-- The sizes of given bounds are those of the entries that are read. -/
def BuildArguments.Faithful (a : BuildArguments α) : Prop :=
  a.boundsUpper.Faithful ∧ a.boundsLower.Faithful

/-! ### Sizes of nested lists -/

theorem shape_of_single {β : Type} {e : Except Fault β} {t : Tensor β} {s : List Nat}
    (ht : e.map Tensor.single = .ok t) (hs : (.ok [] : Except Fault (List Nat)) = .ok s) :
    t.shape = s := by
  cases e with
  | error fault => cases ht
  | ok b =>
    cases ht
    cases hs
    rfl

theorem length_nestedItems {β : Type} {item : Value → Except Fault β} {vs : List Value}
    {ts : List (Tensor β)} (h : Tensor.nestedItems item vs = .ok ts) : ts.length = vs.length := by
  induction vs generalizing ts with
  | nil =>
    cases h
    rfl
  | cons v vs ih =>
    obtain ⟨t, -, h⟩ := Except.bind_eq_ok.1 h
    obtain ⟨ts', hts', h⟩ := Except.bind_eq_ok.1 h
    cases h
    rw [List.length_cons, List.length_cons, ih hts']

mutual

/-- Nested lists are read with the shape that they have. -/
theorem shape_nested {β : Type} {item : Value → Except Fault β} :
    ∀ {v : Value} {t : Tensor β} {s : List Nat}, Tensor.nested item v = .ok t → v.shape = .ok s →
      t.shape = s
  | .list vs, t, s, ht, hs => by
    unfold Tensor.nested at ht
    unfold Value.shape at hs
    obtain ⟨ts, hts, ht⟩ := Except.bind_eq_ok.1 ht
    obtain ⟨ss, hss, hs⟩ := Except.bind_eq_ok.1 hs
    have hshapes := shapes_nestedItems hts hss
    have hlen := length_nestedItems hts
    subst hshapes
    cases ts with
    | nil =>
      cases ht
      cases hs
      rfl
    | cons t' ts =>
      dsimp only at ht
      split at ht
      · cases ht
        split at hs
        · rename_i heq
          cases heq
        · rename_i heq
          obtain ⟨rfl, rfl⟩ := List.cons.inj heq
          split at hs
          · cases hs
            rw [← hlen]
            rfl
          · cases hs
      · cases ht
  | .null, _, _, ht, hs => shape_of_single ht hs
  | .bool _, _, _, ht, hs => shape_of_single ht hs
  | .int _, _, _, ht, hs => shape_of_single ht hs
  | .real _, _, _, ht, hs => shape_of_single ht hs
  | .text _, _, _, ht, hs => shape_of_single ht hs
  | .record _, _, _, ht, hs => shape_of_single ht hs

theorem shapes_nestedItems {β : Type} {item : Value → Except Fault β} :
    ∀ {vs : List Value} {ts : List (Tensor β)} {ss : List (List Nat)},
      Tensor.nestedItems item vs = .ok ts → Value.shapes vs = .ok ss → ts.map (·.shape) = ss
  | [], ts, ss, hts, hss => by
    cases hts
    cases hss
    rfl
  | v :: vs, ts, ss, hts, hss => by
    obtain ⟨t, ht, hts⟩ := Except.bind_eq_ok.1 hts
    obtain ⟨ts', hts', h⟩ := Except.bind_eq_ok.1 hts
    cases h
    obtain ⟨s, hs, hss⟩ := Except.bind_eq_ok.1 hss
    obtain ⟨ss', hss', h⟩ := Except.bind_eq_ok.1 hss
    cases h
    rw [List.map_cons, shape_nested ht hs, shapes_nestedItems hts' hss']

end

/-- What is read from a table of values has the sizes that are given with it. -/
theorem faithful_ofValue (v : Value) : (TableArgument.ofValue v).Faithful := by
  unfold TableArgument.ofValue
  split
  · trivial
  · split
    · trivial
    · rename_i items _
      intro a ha t n ht hn
      obtain ⟨i, -, rfl⟩ := List.mem_map.1 ha
      obtain ⟨s, hs, hread⟩ := Except.bind_eq_ok.1 ht
      dsimp only at hn
      rw [hs] at hn
      cases hn
      rw [t.length_eq, shape_nested hread hs]

/-! ### Checked tables -/

theorem checkWidths_eq_ok {side : Side} {k : Nat} {as : List (LayerArgument α)} {ns : List Nat} {u : Unit}
    (hlen : as.length = ns.length) (h : BuildArguments.checkWidths side k as ns = .ok u) :
    List.Forall₂ (fun a n => a.size = .ok n) as ns := by
  induction as generalizing k ns with
  | nil =>
    rw [List.length_nil, eq_comm, List.length_eq_zero_iff] at hlen
    rw [hlen]
    exact .nil
  | cons a as ih =>
    cases ns with
    | nil => cases hlen
    | cons n ns =>
      obtain ⟨size, hsize, h⟩ := Except.bind_eq_ok.1 h
      split at h
      · rename_i heq
        rw [heq] at hsize
        exact .cons hsize (ih (Nat.succ.inj hlen) h)
      · cases h

theorem checkSide_eq_ok {side : Side} {ns : List Nat} {t : TableArgument α} {as : List (LayerArgument α)}
    (h : BuildArguments.checkSide side ns t = .ok as) :
    t = .layers as ∧ List.Forall₂ (fun a n => a.size = .ok n) as ns := by
  unfold BuildArguments.checkSide at h
  split at h
  · split at h
    · rename_i items hlen
      obtain ⟨u, hu, h⟩ := Except.bind_eq_ok.1 h
      cases h
      exact ⟨rfl, checkWidths_eq_ok hlen hu⟩
    · cases h
  · cases h

theorem length_reading {as : List (LayerArgument α)} {ns : List Nat} {ts : List (Tensor α)}
    (hf : ∀ a ∈ as, a.Faithful) (hs : List.Forall₂ (fun a n => a.size = .ok n) as ns)
    (hr : List.Forall₂ (fun a t => a.reading = .ok t) as ts) :
    ts.map (·.entries.length) = ns := by
  induction hs generalizing ts with
  | nil =>
    cases hr
    rfl
  | cons hsize _ ih =>
    cases hr with
    | cons hread hrest =>
      rw [List.map_cons, ih (fun a ha => hf a (List.mem_cons_of_mem _ ha)) hrest,
        hf _ List.mem_cons_self _ _ hread hsize]

theorem map_length_ofLists {us ls : List (Tensor α)}
    (h : us.map (·.entries.length) = ls.map (·.entries.length)) :
    (List.zipWith (fun u l => Interval.ofLists u.entries l.entries) us ls).map List.length =
      us.map (·.entries.length) := by
  induction us generalizing ls with
  | nil => rfl
  | cons u us ih =>
    cases ls with
    | nil => cases h
    | cons l ls =>
      obtain ⟨hul, h⟩ := List.cons.inj h
      rw [List.zipWith_cons_cons, List.map_cons, ih h, List.map_cons, Interval.ofLists,
        List.length_zipWith, min_eq_left (le_of_eq hul)]

/-- A table that was accepted has the widths that were asked for. -/
theorem table_eq_ok {ns : List Nat} {upper lower : TableArgument α} {t : List (List (Interval α))}
    (hu : upper.Faithful) (hl : lower.Faithful)
    (h : BuildArguments.table ns upper lower = .ok (some t)) : t.map List.length = ns := by
  unfold BuildArguments.table at h
  split at h
  · cases h
  · cases h
  · cases h
  · obtain ⟨us, hus, h⟩ := Except.bind_eq_ok.1 h
    obtain ⟨ls, hls, h⟩ := Except.bind_eq_ok.1 h
    obtain ⟨uts, huts, h⟩ := Except.bind_eq_ok.1 h
    obtain ⟨lts, hlts, h⟩ := Except.bind_eq_ok.1 h
    cases h
    obtain ⟨rfl, hsu⟩ := checkSide_eq_ok hus
    obtain ⟨rfl, hsl⟩ := checkSide_eq_ok hls
    have hul := length_reading hu hsu (mapM_eq_ok huts)
    have hll := length_reading hl hsl (mapM_eq_ok hlts)
    rw [map_length_ofLists (hul.trans hll.symm), hul]

/-! ### Requests -/

variable [Scalar α]

/-- The bounds of the input are those that were read, none above the other. -/
structure BuildArguments.AsksBox (a : BuildArguments α) (n : Nat) (box : List (Interval α)) : Prop where
  bounds : ∃ us ls, Reads a.inputUpper n us ∧ Reads a.inputLower n ls ∧ box = Interval.ofLists us ls ∧
    ¬(List.zipWith (fun u l => Scalar.less u l) us ls).any id

omit [Scalar α] in
/-- The bounds of the output are those that were read. -/
def BuildArguments.AsksRange (a : BuildArguments α) (n : Nat) (range : List (Interval α)) : Prop :=
  ∃ us ls, Reads a.outputUpper n us ∧ Reads a.outputLower n ls ∧ range = Interval.ofLists us ls

/-- How an accepted request follows from its arguments. -/
structure BuildArguments.Asks (a : BuildArguments α) (r : Request α) : Prop where
  network : a.network = .ok r.network
  box : a.AsksBox r.network.inputs r.box
  given : BuildArguments.table r.network.neuronCount a.boundsUpper a.boundsLower = .ok r.given
  mode : Mode.ofValue a.mode = .ok r.plan.mode
  range : ∀ range, r.plan = .output range → a.AsksRange r.network.outputs range

theorem box_eq_ok {us ls : List α} {box : List (Interval α)} (h : BuildArguments.box us ls = .ok box) :
    box = Interval.ofLists us ls ∧ ¬(List.zipWith (fun u l => Scalar.less u l) us ls).any id := by
  unfold BuildArguments.box at h
  split at h
  · cases h
  · split at h
    · cases h
    · rename_i hcross
      cases h
      exact ⟨rfl, hcross⟩

theorem request_eq_ok {a : BuildArguments α} {r : Request α} (h : a.request = .ok r) : a.Asks r := by
  unfold BuildArguments.request at h
  cases hnet : a.network with
  | error kind =>
    rw [hnet] at h
    cases h
  | ok n =>
    rw [hnet] at h
    obtain ⟨_, hn, h⟩ := Except.bind_eq_ok.1 h
    cases hn
    obtain ⟨mode, hmode, h⟩ := Except.bind_eq_ok.1 h
    obtain ⟨us, hus, h⟩ := Except.bind_eq_ok.1 h
    obtain ⟨ls, hls, h⟩ := Except.bind_eq_ok.1 h
    obtain ⟨box, hbox, h⟩ := Except.bind_eq_ok.1 h
    obtain ⟨given, hgiven, h⟩ := Except.bind_eq_ok.1 h
    obtain ⟨hb, hcross⟩ := box_eq_ok hbox
    have hasks : a.AsksBox n.inputs box := ⟨us, ls, vector_eq_ok hus, vector_eq_ok hls, hb, hcross⟩
    cases mode with
    | fast =>
      cases h
      exact ⟨hnet, hasks, hgiven, hmode, fun _ hr => (nomatch hr)⟩
    | standard =>
      cases h
      exact ⟨hnet, hasks, hgiven, hmode, fun _ hr => (nomatch hr)⟩
    | output =>
      obtain ⟨ous, hous, h⟩ := Except.bind_eq_ok.1 h
      obtain ⟨ols, hols, h⟩ := Except.bind_eq_ok.1 h
      cases h
      refine ⟨hnet, hasks, hgiven, hmode, fun range hr => ?_⟩
      cases hr
      exact ⟨ous, ols, vector_eq_ok hous, vector_eq_ok hols, rfl⟩

/-- The settings and the jobs of an accepted request are those of its arguments. -/
theorem request_settings {a : BuildArguments α} {r : Request α} (h : a.request = .ok r) :
    r.settings = a.settings ∧ r.jobs = .ofValue a.jobs := by
  unfold BuildArguments.request at h
  cases hnet : a.network with
  | error kind =>
    rw [hnet] at h
    cases h
  | ok n =>
    rw [hnet] at h
    obtain ⟨_, -, h⟩ := Except.bind_eq_ok.1 h
    obtain ⟨mode, -, h⟩ := Except.bind_eq_ok.1 h
    obtain ⟨us, -, h⟩ := Except.bind_eq_ok.1 h
    obtain ⟨ls, -, h⟩ := Except.bind_eq_ok.1 h
    obtain ⟨box, -, h⟩ := Except.bind_eq_ok.1 h
    obtain ⟨given, -, h⟩ := Except.bind_eq_ok.1 h
    cases mode with
    | fast =>
      cases h
      exact ⟨rfl, rfl⟩
    | standard =>
      cases h
      exact ⟨rfl, rfl⟩
    | output =>
      obtain ⟨ous, -, h⟩ := Except.bind_eq_ok.1 h
      obtain ⟨ols, -, h⟩ := Except.bind_eq_ok.1 h
      cases h
      exact ⟨rfl, rfl⟩

/-- The bounds of a request have the widths of its network. -/
structure Request.WellFormed (r : Request α) : Prop where
  box_length : r.box.length = r.network.inputs
  given_widths : ∀ t ∈ r.given, t.map List.length = r.network.neuronCount
  range_length : ∀ range, r.plan = .output range → range.length = r.network.outputs

omit [Scalar α] in
theorem length_ofLists {us ls : List α} {n : Nat} (hu : us.length = n) (hl : ls.length = n) :
    (Interval.ofLists us ls).length = n := by
  rw [Interval.ofLists, List.length_zipWith, hu, hl, min_self]

theorem BuildArguments.Asks.wellFormed {a : BuildArguments α} {r : Request α} (h : a.Asks r)
    (hf : a.Faithful) : r.WellFormed where
  box_length := by
    obtain ⟨us, ls, ⟨_, _, _, hu⟩, ⟨_, _, _, hl⟩, hbox, _⟩ := h.box.bounds
    rw [hbox]
    exact length_ofLists hu hl
  given_widths := by
    intro t ht
    have hg := h.given
    rw [Option.mem_def.1 ht] at hg
    exact table_eq_ok hf.1 hf.2 hg
  range_length := by
    intro range hr
    obtain ⟨us, ls, ⟨_, _, _, hu⟩, ⟨_, _, _, hl⟩, rfl⟩ := h.range range hr
    exact length_ofLists hu hl

omit [Scalar α] in
theorem BuildArguments.faithful_of_absent {a : BuildArguments α} (hupper : a.boundsUpper = .absent)
    (hlower : a.boundsLower = .absent) : a.Faithful := by
  unfold BuildArguments.Faithful
  rw [hupper, hlower]
  exact ⟨trivial, trivial⟩

/-- Without given bounds a request is well formed, and it has no table either. -/
theorem BuildArguments.Asks.of_absent {a : BuildArguments α} {r : Request α} (h : a.Asks r)
    (hupper : a.boundsUpper = .absent) (hlower : a.boundsLower = .absent) : r.WellFormed ∧ r.given = none := by
  have hgiven := h.given
  rw [hupper, hlower] at hgiven
  exact ⟨h.wellFormed (BuildArguments.faithful_of_absent hupper hlower), (Except.ok.inj hgiven).symm⟩

theorem BuildArguments.Asks.plan_mode {a : BuildArguments α} {r : Request α} {mode : Mode} (h : a.Asks r)
    (hmode : Mode.ofValue a.mode = .ok mode) : r.plan.mode = mode := Except.ok.inj (h.mode.symm.trans hmode)

theorem BuildArguments.Asks.plan_fast {a : BuildArguments α} {r : Request α} (h : a.Asks r)
    (hmode : Mode.ofValue a.mode = .ok .fast) : r.plan = .fast := by
  have hplan := h.plan_mode hmode
  generalize r.plan = plan at hplan ⊢
  cases plan with
  | fast => rfl
  | standard => cases hplan
  | output range => cases hplan

theorem BuildArguments.Asks.plan_standard {a : BuildArguments α} {r : Request α} (h : a.Asks r)
    (hmode : Mode.ofValue a.mode = .ok .standard) : r.plan = .standard := by
  have hplan := h.plan_mode hmode
  generalize r.plan = plan at hplan ⊢
  cases plan with
  | standard => rfl
  | fast => cases hplan
  | output range => cases hplan

theorem BuildArguments.Asks.plan_output {a : BuildArguments α} {r : Request α} (h : a.Asks r)
    (hmode : Mode.ofValue a.mode = .ok .output) : ∃ range, r.plan = .output range := by
  have hplan := h.plan_mode hmode
  generalize r.plan = plan at hplan ⊢
  cases plan with
  | output range => exact ⟨range, rfl⟩
  | fast => cases hplan
  | standard => cases hplan

/-! ### Admitted inputs -/

/-- A vector lies between bounds that were read. -/
def LiesBetween (upper lower : Option (Reading Rat)) (v : List Rat) : Prop :=
  ∃ tu tl, upper = some (.ok tu) ∧ lower = some (.ok tl) ∧
    List.Forall₂ (· ≤ ·) tl.entries v ∧ List.Forall₂ (· ≤ ·) v tu.entries

/-- An input lies within the bounds of the arguments, and so does the output if it is bounded. -/
def BuildArguments.Admits (a : BuildArguments Rat) (n : Network Rat) (v : List Rat) : Prop :=
  LiesBetween a.inputUpper a.inputLower v ∧
    (Mode.ofValue a.mode = .ok .output → LiesBetween a.outputUpper a.outputLower (n.eval v))

theorem forall₂_has_iff {us ls v : List Rat} (h : us.length = ls.length) :
    List.Forall₂ Interval.Has (Interval.ofLists us ls) v ↔
      List.Forall₂ (· ≤ ·) ls v ∧ List.Forall₂ (· ≤ ·) v us := by
  induction us generalizing ls v with
  | nil =>
    rw [List.length_nil, eq_comm, List.length_eq_zero_iff] at h
    subst h
    cases v with
    | nil => exact ⟨fun _ => ⟨.nil, .nil⟩, fun _ => .nil⟩
    | cons a v => exact ⟨fun h => (nomatch h), fun h => (nomatch h.1)⟩
  | cons u us ih =>
    cases ls with
    | nil => cases h
    | cons l ls =>
      cases v with
      | nil => exact ⟨fun h => (nomatch h), fun h => (nomatch h.1)⟩
      | cons a v =>
        rw [Interval.ofLists, List.zipWith_cons_cons, List.forall₂_cons, List.forall₂_cons,
          List.forall₂_cons, ← Interval.ofLists, ih (Nat.succ.inj h)]
        exact and_and_and_comm

theorem liesBetween_iff {upper lower : Option (Reading Rat)} {n : Nat} {us ls v : List Rat}
    (hu : Reads upper n us) (hl : Reads lower n ls) :
    LiesBetween upper lower v ↔ List.Forall₂ Interval.Has (Interval.ofLists us ls) v := by
  obtain ⟨tu, rfl, rfl, hlu⟩ := hu
  obtain ⟨tl, rfl, rfl, hll⟩ := hl
  rw [forall₂_has_iff (hlu.trans hll.symm)]
  constructor
  · rintro ⟨_, _, hu, hl, h⟩
    cases hu
    cases hl
    exact h
  · exact fun h => ⟨tu, tl, rfl, rfl, h⟩

/-- The admitted inputs in terms of the bounds of the request. -/
theorem BuildArguments.Asks.admits_iff {a : BuildArguments Rat} {r : Request Rat} (h : a.Asks r)
    {v : List Rat} :
    a.Admits r.network v ↔ List.Forall₂ Interval.Has r.box v ∧
      ∀ range, r.plan = .output range → List.Forall₂ Interval.Has range (r.network.eval v) := by
  obtain ⟨us, ls, hus, hls, hbox, -⟩ := h.box.bounds
  unfold BuildArguments.Admits
  rw [liesBetween_iff hus hls, ← hbox, h.mode]
  refine and_congr_right fun _ => ?_
  have hrange := h.range
  cases hp : r.plan with
  | fast => exact ⟨fun _ _ h => (nomatch h), fun _ h => (nomatch h)⟩
  | standard => exact ⟨fun _ _ h => (nomatch h), fun _ h => (nomatch h)⟩
  | output range =>
    obtain ⟨ous, ols, hous, hols, rfl⟩ := hrange range hp
    rw [liesBetween_iff hous hols]
    constructor
    · intro hin range' hr
      cases hr
      exact hin rfl
    · intro hin _
      exact hin _ rfl

/-- Lower bounds that are not above the upper ones lie in the box. -/
theorem lower_mem_box {us ls : List Rat} (hlen : us.length = ls.length)
    (h : ¬(List.zipWith (fun u l => Scalar.less u l) us ls).any id) :
    List.Forall₂ Interval.Has (Interval.ofLists us ls) ls := by
  induction us generalizing ls with
  | nil =>
    rw [List.length_nil, eq_comm, List.length_eq_zero_iff] at hlen
    rw [hlen]
    exact .nil
  | cons u us ih =>
    cases ls with
    | nil => cases hlen
    | cons l ls =>
      rw [List.zipWith_cons_cons, List.any_cons, Bool.or_eq_true, not_or] at h
      obtain ⟨hhead, hrest⟩ := h
      refine .cons ⟨le_rfl, not_lt.1 fun hlt => hhead ?_⟩ (ih (Nat.succ.inj hlen) hrest)
      exact decide_eq_true hlt

/-- Some vector lies in the box of an accepted request. -/
theorem BuildArguments.Asks.exists_mem_box {a : BuildArguments Rat} {r : Request Rat} (h : a.Asks r) :
    ∃ v, List.Forall₂ Interval.Has r.box v := by
  obtain ⟨us, ls, ⟨_, _, _, hu⟩, ⟨_, _, _, hl⟩, hbox, hcross⟩ := h.box.bounds
  rw [hbox]
  exact ⟨ls, lower_mem_box (hu.trans hl.symm) hcross⟩

/-! ### A small network -/

/-- The absolute value as the sum of two rectifiers. -/
def Network.absolute : Network Rat :=
  { name := .text "absolute"
    hidden := [⟨1, [⟨[1], 0⟩, ⟨[-1], 0⟩], .relu, by decide⟩]
    output := ⟨2, [⟨[1, 1], 0⟩], .identity, by decide⟩
    hidden_relu := by decide
    output_identity := rfl
    chained := by decide }

/-- Arguments for the absolute value on numbers from minus one to one. The range of the output, which is
read with bounds on the output only, is out of reach. -/
def BuildArguments.absolute (mode : String) : BuildArguments Rat :=
  { network := .ok .absolute
    mode := .text mode
    settings := .default
    jobs := .int 1
    name := .null
    inputUpper := some (.ok (.ofVector [1]))
    inputLower := some (.ok (.ofVector [-1]))
    boundsUpper := .absent
    boundsLower := .absent
    outputUpper := some (.ok (.ofVector [3]))
    outputLower := some (.ok (.ofVector [2])) }

theorem BuildArguments.faithful_absolute (mode : String) : (absolute mode).Faithful :=
  ⟨trivial, trivial⟩

/-- The absolute value with doubles as weights. -/
def Network.magnitude : Network Float :=
  { name := .text "absolute"
    hidden := [⟨1, [⟨[1], 0⟩, ⟨[-1], 0⟩], .relu, by simp⟩]
    output := ⟨2, [⟨[1, 1], 0⟩], .identity, by simp⟩
    hidden_relu := by simp
    output_identity := rfl
    chained := ⟨rfl, trivial⟩ }

/-- Arguments for the absolute value of doubles from minus one to one. -/
def BuildArguments.magnitude : BuildArguments Float :=
  { network := .ok .magnitude
    mode := .text "fast"
    settings := .default
    jobs := .int 1
    name := .null
    inputUpper := some (.ok (.ofVector [1]))
    inputLower := some (.ok (.ofVector [-1]))
    boundsUpper := .absent
    boundsLower := .absent
    outputUpper := none
    outputLower := none }

theorem BuildArguments.faithful_magnitude : magnitude.Faithful := ⟨trivial, trivial⟩

end ReluMilp
