import ReluMilp.Proofs.Doubles
import ReluMilp.Proofs.Requests
import ReluMilp.Settings

/-!
# Configurations of the solver

What is left of a configuration once it is accepted. The checks compare the values as they are given, and the
conversions come after them: a fraction below zero is refused before it could be cut to zero, and a whole number
becomes a double on the same side of zero. An undefined time limit is the one value that no check stops, since it
is not below zero either.

* `truncated_nonneg`, `asReal_nonneg` — what passes the check is not negative after its conversion;
* `make_eq_ok` — when five values are accepted, and the settings they give;
* `mem_insertName`, `unknownNames?_texts` — the unknown names, sorted and each of them once;
* `Settings.fields`, `ofValue_fields` — accepted settings are accepted again, as they are;
* `configurations_checked` — any configuration; `undefined_limit_accepted` — the time limit that is no number.
-/

namespace ReluMilp

/-! ### Checks before conversions -/

section Numbers

variable {v : Value}

/-- A number that is not below zero is not negative without its places. -/
theorem truncate_nonneg {x : Float} {n : Int} (hx : ¬ x < 0) (h : Value.truncate x = .ok n) : 0 ≤ n := by
  unfold Value.truncate at h
  split at h
  · rename_i negative m q hparts
    cases negative with
    | false =>
      cases h
      exact Int.natCast_nonneg _
    | true =>
      -- the sign of a number that is not below zero is that of a zero
      have hm : m = 0 := by
        by_contra hm
        exact hx (negative_of_finite hparts hm)
      cases h
      simp [hm]
  · cases h
  · cases h

theorem truncated_nonneg {n : Int} (hv : v.isNegative = .ok false) (h : v.truncated = .ok n) : 0 ≤ n := by
  cases v with
  | bool b =>
    cases h
    cases b <;> decide
  | int k =>
    cases h
    have hk : decide (n < 0) = false := Except.ok.inj hv
    exact not_lt.1 (of_decide_eq_false hk)
  | real x =>
    have hx : decide (x < 0) = false := Except.ok.inj hv
    exact truncate_nonneg (of_decide_eq_false hx) h
  | null => cases hv
  | text s => cases hv
  | list vs => cases hv
  | record fs => cases hv

/-- What passes the check is at least zero as a real number; an undefined number passes as it is. -/
theorem asReal_nonneg {x : Float} (hv : v.isNegative = .ok false) (h : v.asReal = .ok x) :
    0 ≤ x ∨ x.isNaN = true ∧ v = .real x := by
  cases v with
  | bool b =>
    cases h
    left
    cases b <;> decide
  | int k =>
    have hk : decide (k < 0) = false := Except.ok.inj hv
    exact .inl (ofWhole_nonneg (not_lt.1 (of_decide_eq_false hk)) h)
  | real y =>
    cases h
    have hx : decide (x < 0) = false := Except.ok.inj hv
    exact (nonneg_or_isNaN (of_decide_eq_false hx)).imp_right fun hnan => ⟨hnan, rfl⟩
  | null => cases hv
  | text s => cases hv
  | list vs => cases hv
  | record fs => cases hv

end Numbers

namespace Settings

/-! ### Five values -/

variable {solver silent threads relax timeLimit : Value} {s : Settings}

theorem make_eq_ok : make solver silent threads relax timeLimit = .ok s ↔
    ∃ t n x, solver = .text t ∧ lower t = "gurobi" ∧ threads.isNegative = .ok false ∧
      timeLimit.isNegative = .ok false ∧ threads.truncated = .ok n ∧ timeLimit.asReal = .ok x ∧
      s = ⟨"gurobi", silent.truth, n, relax.truth, x⟩ := by
  constructor
  · intro h
    unfold make at h
    cases solver with
    | text t =>
      dsimp only at h
      split at h
      · cases h
      · rename_i hname
        have hname := not_not.1 hname
        obtain ⟨b, hb, h⟩ := Except.bind_eq_ok.1 h
        cases b with
        | true => cases h
        | false =>
          obtain ⟨b, hb', h⟩ := Except.bind_eq_ok.1 h
          cases b with
          | true => cases h
          | false =>
            obtain ⟨n, hn, h⟩ := Except.bind_eq_ok.1 h
            obtain ⟨x, hx, h⟩ := Except.bind_eq_ok.1 h
            refine ⟨t, n, x, rfl, hname, hb, hb', hn, hx, ?_⟩
            cases h
            rw [hname]
    | null => cases h
    | bool b => cases h
    | int k => cases h
    | real x => cases h
    | list vs => cases h
    | record fs => cases h
  · rintro ⟨t, n, x, rfl, hname, hthreads, hlimit, hn, hx, rfl⟩
    unfold make
    simp only [hname, hthreads, hlimit, hn, hx]
    rfl

/-! ### Names -/

theorem mem_insertName {t k : String} {names : List String} : k ∈ insertName t names ↔ k = t ∨ k ∈ names := by
  induction names with
  | nil => simp [insertName]
  | cons u us ih =>
    unfold insertName
    split
    · rename_i htu
      simp [htu]
    · split
      · simp
      · simp only [List.mem_cons, ih]
        tauto

/-- A sorted list without repetition stays one. -/
theorem pairwise_insertName {names : List String} (t : String) (h : names.Pairwise (· < ·)) :
    (insertName t names).Pairwise (· < ·) := by
  induction names with
  | nil => simp [insertName]
  | cons u us ih =>
    obtain ⟨hu, hus⟩ := List.pairwise_cons.1 h
    unfold insertName
    split
    · exact h
    · rename_i hne
      split
      · rename_i hlt
        refine List.pairwise_cons.2 ⟨fun k hk => ?_, h⟩
        rcases List.mem_cons.1 hk with rfl | hk
        · exact hlt
        · exact hlt.trans (hu k hk)
      · rename_i hle
        refine List.pairwise_cons.2 ⟨fun k hk => ?_, ih hus⟩
        rcases mem_insertName.1 hk with rfl | hk
        · exact lt_of_le_of_ne (not_lt.1 hle) (Ne.symm hne)
        · exact hu k hk

/-- The unknown ones among some names, sorted and each of them once. -/
theorem unknownNames?_texts (ks : List String) : ∃ names, unknownNames? (ks.map .text) = some names ∧
    names.Pairwise (· < ·) ∧ ∀ k, k ∈ names ↔ k ∈ ks ∧ k ∉ fieldNames := by
  induction ks with
  | nil => exact ⟨[], rfl, .nil, by simp⟩
  | cons t ks ih =>
    obtain ⟨names, hnames, hsorted, hmem⟩ := ih
    have hstep : unknownNames? ((t :: ks).map .text) =
        some (if fieldNames.contains t then names else insertName t names) := by
      rw [List.map_cons, unknownNames?, hnames]
      rfl
    refine ⟨_, hstep, ?_, fun k => ?_⟩
    · split
      · exact hsorted
      · exact pairwise_insertName t hsorted
    · split
      · rename_i ht
        rw [hmem]
        have ht : t ∈ fieldNames := by simpa using ht
        constructor
        · exact fun h => ⟨List.mem_cons_of_mem _ h.1, h.2⟩
        · rintro ⟨hk, hnot⟩
          rcases List.mem_cons.1 hk with rfl | hk
          · exact absurd ht hnot
          · exact ⟨hk, hnot⟩
      · rename_i ht
        have ht : t ∉ fieldNames := by simpa using ht
        rw [mem_insertName, hmem]
        constructor
        · rintro (rfl | ⟨hk, hnot⟩)
          · exact ⟨List.mem_cons_self, ht⟩
          · exact ⟨List.mem_cons_of_mem _ hk, hnot⟩
        · rintro ⟨hk, hnot⟩
          rcases List.mem_cons.1 hk with rfl | hk
          · exact .inl rfl
          · exact .inr ⟨hk, hnot⟩

/-! ### Records -/

/-- A record as the five values of a configuration, those that it leaves out as they are by default. -/
def makeOf (config : Value) : Except Fault Settings :=
  make ((config.field? "solver").getD (.text "gurobi")) ((config.field? "silent").getD (.bool true))
    ((config.field? "threads").getD (.int 0)) ((config.field? "relax").getD (.bool false))
    ((config.field? "time_limit").getD (.real 0))

/-- A record is looked at by its unknown names first. -/
theorem ofValue_record (fs : List (String × Value)) : ∃ names : List String, names.Pairwise (· < ·) ∧
    (∀ k, k ∈ names ↔ (∃ v, (k, v) ∈ fs) ∧ k ∉ fieldNames) ∧
    ofValue (.record fs) =
      if names = [] then makeOf (.record fs) else .error (.parameter (.unknownSettings names)) := by
  obtain ⟨names, hnames, hsorted, hmem⟩ := unknownNames?_texts (fs.map (·.1))
  have hkeys : ∀ k, k ∈ names ↔ (∃ v, (k, v) ∈ fs) ∧ k ∉ fieldNames := by
    intro k
    rw [hmem, List.mem_map]
    simp
  have hitems : (Value.record fs).items? = some (fs.map fun e => .text e.1) := rfl
  have hunknown : unknownNames? (fs.map fun e => .text e.1) = some names := by
    rw [← hnames, List.map_map]
    rfl
  refine ⟨names, hsorted, hkeys, ?_⟩
  unfold ofValue
  rw [hitems]
  dsimp only
  rw [hunknown]
  cases names with
  | cons k ks => rfl
  | nil =>
    have hall : (fs.all fun e => fieldNames.contains e.1) = true := by
      rw [List.all_eq_true]
      intro e he
      by_contra hk
      have hnot : e.1 ∉ fieldNames := by simpa using hk
      exact List.not_mem_nil ((hkeys e.1).2 ⟨⟨e.2, he⟩, hnot⟩)
    exact if_pos hall

/-- Only a record is accepted. -/
theorem record_of_ofValue {config : Value} {s : Settings} (h : ofValue config = .ok s) :
    ∃ fs, config = .record fs := by
  unfold ofValue at h
  split at h
  · cases h
  · split at h
    · cases h
    · unfold ofFields at h
      split at h
      · exact ⟨_, rfl⟩
      · cases h
    · cases h

theorem makeOf_of_ofValue {config : Value} {s : Settings} (h : ofValue config = .ok s) :
    makeOf config = .ok s := by
  obtain ⟨fs, rfl⟩ := record_of_ofValue h
  obtain ⟨names, -, -, heq⟩ := ofValue_record fs
  rw [heq] at h
  split at h
  · exact h
  · cases h

/-! ### Accepted settings -/

/-- Settings as they are accepted: the one solver, a number of threads that is not negative, and a time limit
that is not below zero. -/
structure Checked (s : Settings) : Prop where
  solver : s.solver = "gurobi"
  threads : 0 ≤ s.threads
  limit : ¬ s.timeLimit < 0

/-- Accepted settings are checked, and their time limit is a number unless the given one is none. -/
theorem checked_of_makeOf {config : Value} {s : Settings} (h : makeOf config = .ok s) : s.Checked ∧
    (0 ≤ s.timeLimit ∨ s.timeLimit.isNaN = true ∧ config.field? "time_limit" = some (.real s.timeLimit)) := by
  obtain ⟨t, n, x, -, -, hthreads, hlimit, hn, hx, rfl⟩ := make_eq_ok.1 h
  have hreal := asReal_nonneg hlimit hx
  refine ⟨⟨rfl, truncated_nonneg hthreads hn, not_lt_zero (hreal.imp_right And.left)⟩, ?_⟩
  refine hreal.imp_right fun ⟨hnan, hgiven⟩ => ⟨hnan, ?_⟩
  cases hfield : config.field? "time_limit" with
  | some v =>
    rw [hfield] at hgiven
    exact congrArg some hgiven
  | none =>
    rw [hfield] at hgiven
    cases hgiven
    exact absurd hnan (by decide)

/-- The five fields of settings. -/
def fields (s : Settings) : List (String × Value) :=
  [("solver", .text s.solver), ("silent", .bool s.silent), ("threads", .int s.threads),
    ("relax", .bool s.relax), ("time_limit", .real s.timeLimit)]

theorem field?_of_mem {fs : List (String × Value)} {k : String} {v : Value} (hnodup : (fs.map (·.1)).Nodup)
    (h : (k, v) ∈ fs) : (Value.record fs).field? k = some v := by
  induction fs with
  | nil => cases h
  | cons e fs ih =>
    obtain ⟨hnot, hnodup⟩ := List.nodup_cons.1 hnodup
    rcases List.mem_cons.1 h with rfl | hmem
    · simp [Value.field?]
    · have hne : ¬ e.1 = k := by
        rintro rfl
        exact hnot (List.mem_map.2 ⟨_, hmem, rfl⟩)
      simpa [Value.field?, hne] using ih hnodup hmem

/-- The fields of checked settings, in any order, give the same settings again. -/
theorem ofValue_fields {s : Settings} (hs : s.Checked) {fs : List (String × Value)} (hp : fs.Perm s.fields) :
    ofValue (.record fs) = .ok s := by
  have hnodup : (fs.map (·.1)).Nodup := by
    rw [(hp.map (·.1)).nodup_iff]
    show ["solver", "silent", "threads", "relax", "time_limit"].Nodup
    decide
  have hfield : ∀ k v, (k, v) ∈ s.fields → (Value.record fs).field? k = some v :=
    fun k v hkv => field?_of_mem hnodup (hp.mem_iff.2 hkv)
  have hmake : makeOf (.record fs) = .ok s := by
    unfold makeOf
    rw [hfield "solver" (.text s.solver) (by simp [fields]),
      hfield "silent" (.bool s.silent) (by simp [fields]),
      hfield "threads" (.int s.threads) (by simp [fields]),
      hfield "relax" (.bool s.relax) (by simp [fields]),
      hfield "time_limit" (.real s.timeLimit) (by simp [fields])]
    refine make_eq_ok.2 ⟨s.solver, s.threads, s.timeLimit, rfl, ?_, ?_, ?_, rfl, rfl, ?_⟩
    · rw [hs.solver]
      decide
    · exact congrArg Except.ok (decide_eq_false (not_lt.2 hs.threads))
    · exact congrArg Except.ok (decide_eq_false hs.limit)
    · rw [← hs.solver]
      rfl
  obtain ⟨names, -, hnames, heq⟩ := ofValue_record fs
  have hknown : names = [] := by
    refine List.eq_nil_iff_forall_not_mem.2 fun k hk => ?_
    obtain ⟨⟨v, hv⟩, hnot⟩ := (hnames k).1 hk
    have hmem : k ∈ s.fields.map (·.1) := List.mem_map_of_mem (hp.mem_iff.1 hv)
    exact hnot hmem
  rw [heq, if_pos hknown, hmake]

end Settings

/-! ### Any configuration -/

open Settings

/-- What a configuration of any shape leads to. If it is accepted, the settings are checked, their time limit is
at least zero unless an undefined one is given, and their five fields, in any order, give the same settings. A
record with known names only gives what the five values give. A record with any other name is refused with
exactly these names, whatever its values are. Names are texts: what becomes of a mapping with keys of another
kind, whose unknown keys cannot be put together to a message, is not said here. -/
theorem configurations_checked (config : Value) :
    (∀ s, Settings.ofValue config = .ok s →
      (s.solver = "gurobi" ∧ 0 ≤ s.threads ∧
        (0 ≤ s.timeLimit ∨ s.timeLimit.isNaN = true ∧ config.field? "time_limit" = some (.real s.timeLimit))) ∧
      ∀ fs : List (String × Value), fs.Perm s.fields → Settings.ofValue (.record fs) = .ok s) ∧
    ∀ fs : List (String × Value), config = .record fs →
      ((∀ e ∈ fs, e.1 ∈ fieldNames) → Settings.ofValue config = makeOf config) ∧
      ((∃ e ∈ fs, e.1 ∉ fieldNames) → ∃ names : List String, names.Pairwise (· < ·) ∧
        (∀ k, k ∈ names ↔ (∃ v, (k, v) ∈ fs) ∧ k ∉ fieldNames) ∧
        Settings.ofValue config = .error (.parameter (.unknownSettings names))) := by
  constructor
  · intro s hs
    obtain ⟨hchecked, hlimit⟩ := checked_of_makeOf (makeOf_of_ofValue hs)
    exact ⟨⟨hchecked.solver, hchecked.threads, hlimit⟩, fun fs hp => ofValue_fields hchecked hp⟩
  · rintro fs rfl
    obtain ⟨names, hsorted, hnames, heq⟩ := ofValue_record fs
    rw [heq]
    constructor
    · intro hall
      refine if_pos (List.eq_nil_iff_forall_not_mem.2 fun k hk => ?_)
      obtain ⟨⟨v, hv⟩, hnot⟩ := (hnames k).1 hk
      exact hnot (hall _ hv)
    · rintro ⟨⟨k, v⟩, hmem, hnot⟩
      have hk : k ∈ names := (hnames k).2 ⟨⟨v, hmem⟩, hnot⟩
      exact ⟨names, hsorted, hnames, if_neg (List.ne_nil_of_mem hk)⟩

/-- A configuration with threads and a time limit in whole numbers. -/
def Value.timed : Value :=
  .record [("solver", .text "Gurobi"), ("silent", .bool false), ("threads", .int 2), ("time_limit", .int 30)]

theorem configurations_checked_timed :
    Settings.ofValue .timed = .ok ⟨"gurobi", false, 2, false, 30⟩ ∧
    (0 ≤ (30 : Float) ∨ (30 : Float).isNaN = true ∧ Value.timed.field? "time_limit" = some (.real 30)) ∧
    Settings.ofValue .timed = makeOf .timed ∧
    ∃ names : List String, names.Pairwise (· < ·) ∧
      (∀ k, k ∈ names ↔ (∃ v, (k, v) ∈ [("mip_gap", Value.real 1)]) ∧ k ∉ fieldNames) ∧
      Settings.ofValue (.record [("mip_gap", .real 1)]) = .error (.parameter (.unknownSettings names)) := by
  have haccepted : Settings.ofValue .timed = .ok ⟨"gurobi", false, 2, false, 30⟩ := rfl
  have hknown : ∀ e ∈ [("solver", Value.text "Gurobi"), ("silent", .bool false), ("threads", .int 2),
      ("time_limit", .int 30)], e.1 ∈ fieldNames := by simp [fieldNames]
  exact ⟨haccepted, ((configurations_checked .timed).1 _ haccepted).1.2.2,
    ((configurations_checked .timed).2 _ rfl).1 hknown,
    ((configurations_checked (.record [("mip_gap", .real 1)])).2 _ rfl).2 ⟨_, List.mem_cons_self, by decide⟩⟩

/-- An undefined time limit is accepted as it is. -/
theorem undefined_limit_accepted :
    ∃ s, Settings.ofValue (.record [("time_limit", .real Parts.undefined.toFloat)]) = .ok s ∧
      s.timeLimit.isNaN = true ∧ ¬ 0 ≤ s.timeLimit :=
  ⟨⟨"gurobi", true, 0, false, Parts.undefined.toFloat⟩, rfl, by decide, by decide⟩

end ReluMilp
