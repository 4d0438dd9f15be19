import ReluMilp.Proofs.Naming
import ReluMilp.Proofs.Regressing
import ReluMilp.Proofs.Sessions

/-!
# Names that do not clash

Formulations in one model are told apart by their names, and so are all their variables and rows.

* `Formulation.Named` — a formulation that was not removed is named after what it is;
* `Session.Step.named`, `Session.Run.named` — one step of a session keeps that, and so does any number of
  them;
* `Session.Has`, `Session.Has.unique` — a name tells the formulation and the part, and with them the number;
* `names_distinct` — no two variables and no two rows of formulations have the same name.
-/

namespace ReluMilp

variable {α : Type} [Scalar α]

/-! ### Sessions -/

omit [Scalar α] in
/-- A formulation that was not removed is named after what it is. -/
def Formulation.Named (f : Formulation α) (m : Model α) : Prop :=
  ∀ b, f.body? = some b → b.Named f.name m

omit [Scalar α] in
theorem Formulation.Named.spare {f : Formulation α} {m m' : Model α} (h : f.Named m)
    (hs : m.Spares m' f.vars f.rows) : f.Named m' := by
  intro b hb
  obtain ⟨hvars, hrows⟩ := parts_of_body hb
  rw [hvars, hrows] at hs
  exact (h b hb).spare hs

section Sessions

variable {m₀ m m' : Model α} {s s' : Session α} {f g : Formulation α} {before after : List (Formulation α)}

omit [Scalar α] in
/-- One formulation is exchanged for another one, and the rest is left alone. -/
theorem named_exchange (h : ∀ e ∈ before ++ f :: after, e.Named m) (hg : g.Named m')
    (hothers : ∀ e ∈ before ++ after, m.Spares m' e.vars e.rows) :
    ∀ e ∈ before ++ g :: after, e.Named m' := by
  intro e he
  have hmem : e = g ∨ e ∈ before ++ after := by
    rw [List.mem_append, List.mem_cons] at he
    rw [List.mem_append]
    tauto
  rcases hmem with rfl | he
  · exact hg
  · refine (h e ?_).spare (hothers e he)
    rw [List.mem_append, List.mem_cons]
    exact (List.mem_append.1 he).imp_right Or.inr

/-- The formulation after a replacement is named after what it is. -/
theorem Formulation.Named.revise {c : Revision α} {b : Body} {k i : Nat} {us : List HiddenUnit}
    {u : HiddenUnit} {j : Interval α} (h : f.Named m) (hplaced : f.Placed m)
    (hr : f.Replaced c m b k i us u j g m') : g.Named m' := by
  obtain ⟨-, -, hname, hbody⟩ := hr.fixed
  obtain ⟨table, hp⟩ := hplaced b hr.body
  have hswap := (h b hr.body).swap hp.stands.rows_nodup hr.units hr.unit hr.names j
  intro b' hb'
  rw [hbody] at hb'
  cases hb'
  rw [hname, hr.model]
  exact hswap

/-- One step of a session. -/
theorem Session.Step.named (hstep : s.Step s') (howned : Owned m₀ s.model s.formulations)
    (hm₀ : m₀.WellFormed) (hobjective : ∀ t ∈ m₀.objective.expression.terms, t.var < m₀.nextVar)
    (h : ∀ f ∈ s.formulations, f.Named s.model) : ∀ f ∈ s'.formulations, f.Named s'.model := by
  cases hstep with
  | @build w w' fs f solver settings a ha hbuild =>
    obtain ⟨-, -, _, -, -, -, hadds⟩ := formulateNetwork_placed howned.wellFormed ha hbuild
    intro e he
    rcases List.mem_append.1 he with he | he
    · have hspares := hadds.spares e.vars e.rows
      exact (h e he).spare ⟨hspares.vars, hspares.rows, hspares.nextRow_le⟩
    · obtain ⟨b, hb, hnamed⟩ := formulateNetwork_named howned.wellFormed ha hbuild
      rw [List.mem_singleton.1 he]
      intro b' hb'
      rw [hb] at hb'
      cases hb'
      exact hnamed
  | @revise w w' fs i f g c hi hrevise =>
    obtain ⟨before, after, hfs, hset⟩ := set_split g hi
    obtain ⟨b, k, j, us, u, d, hr⟩ := exists_replaced hrevise
    have hsplit : Owned m₀ w.model (before ++ f :: after) := hfs ▸ howned
    have hnamed : ∀ e ∈ before ++ f :: after, e.Named w.model := hfs ▸ h
    have hf : f ∈ before ++ f :: after := List.mem_append_right _ List.mem_cons_self
    show ∀ e ∈ fs.set i g, e.Named w'.model
    rw [hset]
    exact named_exchange hnamed ((hnamed f hf).revise (hsplit.placed f hf) hr)
      fun e he => hsplit.revise_spares hr he
  | @evaluate w w' fs i f e solver input hi heval =>
    show ∀ f ∈ fs, f.Named w'.model
    rw [forwardPass_model howned.wellFormed heval]
    exact h
  | @remove w w' fs i f g hi hremove =>
    obtain ⟨before, after, hfs, hset⟩ := set_split g hi
    have hsplit : Owned m₀ w.model (before ++ f :: after) := hfs ▸ howned
    have hnamed : ∀ e ∈ before ++ f :: after, e.Named w.model := hfs ▸ h
    show ∀ e ∈ fs.set i g, e.Named w'.model
    rw [hset]
    cases hb : f.body? with
    | none =>
      rw [remove_of_removed hb] at hremove
      cases hremove
      exact hnamed
    | some b =>
      obtain ⟨v, hrun, hv⟩ := remove_of_body hb w
      obtain ⟨hvars, hrows⟩ := parts_of_body hb
      rw [hrun] at hremove
      cases hremove
      rw [hv, ← hvars, ← hrows]
      exact named_exchange hnamed (fun b hb => (nomatch hb))
        fun e he => hsplit.remove_spares hm₀ hobjective he

/-- Any number of steps. -/
theorem Session.Run.named (hrun : s.Run s') (howned : Owned m₀ s.model s.formulations)
    (hm₀ : m₀.WellFormed) (hobjective : ∀ t ∈ m₀.objective.expression.terms, t.var < m₀.nextVar)
    (h : ∀ f ∈ s.formulations, f.Named s.model) : ∀ f ∈ s'.formulations, f.Named s'.model := by
  induction hrun with
  | refl => exact h
  | step hfront hstep ih => exact hstep.named (howned.run hm₀ hobjective hfront) hm₀ hobjective ih

end Sessions

/-! ### Names that do not clash -/

section Clash

variable {m : Model α} {fs : List (Formulation α)} {f g : Formulation α} {ts : List String}

omit [Scalar α] in
/-- The formulations of a session that were not removed. -/
def Session.live (s : Session α) : List (Formulation α) := s.formulations.filter (·.body?.isSome)

/-- Items with different numbers have different names if the name tells the number. -/
theorem nodup_names {β : Type} {number : β → Nat} {name : β → String} {bs : List β}
    (hnodup : (bs.map number).Nodup) (h : ∀ x ∈ bs, ∀ y ∈ bs, name x = name y → number x = number y) :
    (bs.map name).Nodup := by
  refine hnodup.of_map.map_on fun x hx y hy hxy => ?_
  exact List.inj_on_of_nodup_map hnodup hx hy (h x hx y hy hxy)

omit [Scalar α] in
/-- A formulation with a variable or a row has a body. -/
theorem exists_body {id : Nat} (h : id ∈ f.vars ∨ id ∈ f.rows) : ∃ b, f.body? = some b := by
  cases hb : f.body? with
  | some b => exact ⟨b, rfl⟩
  | none =>
    obtain ⟨hvars, hrows⟩ := parts_of_removed hb
    rw [hvars, hrows] at h
    simp at h

omit [Scalar α] in
/-- Formulations with distinct texts as names are told apart by their names. -/
theorem eq_of_name {s : Session α} (hnames : s.live.map (·.name) = ts.map .text) (hts : ts.Nodup)
    (hf : f ∈ s.live) (hg : g ∈ s.live) : ∃ t t', f.name = .text t ∧ g.name = .text t' ∧ (t = t' → f = g) := by
  have hinj : Function.Injective Value.text := fun t t' h => by cases h; rfl
  have hnodup : (s.live.map (·.name)).Nodup := by
    rw [hnames]
    exact hts.map hinj
  have htext : ∀ e ∈ s.live, ∃ t, e.name = .text t := by
    intro e he
    have hmem : e.name ∈ ts.map Value.text := hnames ▸ List.mem_map_of_mem he
    obtain ⟨t, -, ht⟩ := List.mem_map.1 hmem
    exact ⟨t, ht.symm⟩
  obtain ⟨t, ht⟩ := htext f hf
  obtain ⟨t', ht'⟩ := htext g hg
  refine ⟨t, t', ht, ht', fun heq => List.inj_on_of_nodup_map hnodup hf hg ?_⟩
  rw [ht, ht', heq]

omit [Scalar α] in
theorem mem_live {s : Session α} {b : Body} (hf : f ∈ s.formulations) (hb : f.body? = some b) : f ∈ s.live :=
  List.mem_filter.2 ⟨hf, by rw [hb]; rfl⟩

/-- Something with a number is a part of a formulation that was not removed, and is named after that part. -/
def Session.Has {P : Type} (s : Session α) (part? : Body → P → Option Nat) (label : P → Value → String)
    (id : Nat) (t : String) : Prop :=
  ∃ f ∈ s.live, ∃ b p, f.body? = some b ∧ part? b p = some id ∧ t = label p f.name

variable {s : Session α}

omit [Scalar α] in
/-- The name tells the number, if it tells the text of the formulation and the part. -/
theorem Session.Has.unique {P : Type} {part? : Body → P → Option Nat} {label : P → Value → String}
    {id id' : Nat} {x : String} (h : s.Has part? label id x) (h' : s.Has part? label id' x)
    (hnames : s.live.map (·.name) = ts.map .text) (hts : ts.Nodup)
    (hinj : ∀ {b c p q n n' t t'}, part? b p = some n → part? c q = some n' →
      label p (.text t) = label q (.text t') → t = t' ∧ p = q) : id = id' := by
  obtain ⟨f, hf, b, p, hb, hp, rfl⟩ := h
  obtain ⟨g, hg, c, q, hc, hq, hsame⟩ := h'
  obtain ⟨t, t', ht, ht', heq⟩ := eq_of_name hnames hts hf hg
  rw [ht, ht'] at hsame
  obtain ⟨htext, rfl⟩ := hinj hp hq hsame
  obtain rfl := heq htext
  rw [hb] at hc
  cases hc
  exact Option.some.inj (hp.symm.trans hq)

omit [Scalar α] in
theorem Session.has_var (hm : s.model.WellFormed) (h : ∀ f ∈ s.formulations, f.Named s.model) {v : Variable α}
    (hv : v ∈ s.model.vars) (hid : v.id ∈ s.vars) : s.Has Body.var? (fun p t => p.name t) v.id v.name := by
  obtain ⟨f, hf, hmine⟩ := List.mem_flatMap.1 hid
  obtain ⟨b, hb⟩ := exists_body (.inl hmine)
  rw [(parts_of_body hb).1] at hmine
  obtain ⟨p, hp, u, hu, huv, hname⟩ := (h f hf b hb).vars v.id hmine
  rw [hm.eq_of_var_id hu hv huv] at hname
  exact ⟨f, mem_live hf hb, b, p, hb, hp, hname⟩

omit [Scalar α] in
theorem Session.has_row (hm : s.model.WellFormed) (h : ∀ f ∈ s.formulations, f.Named s.model) {r : Row α}
    (hr : r ∈ s.model.rows) (hid : r.id ∈ s.rows) : s.Has Body.row? (fun p t => p.name t) r.id r.name := by
  obtain ⟨f, hf, hmine⟩ := List.mem_flatMap.1 hid
  obtain ⟨b, hb⟩ := exists_body (.inr hmine)
  rw [(parts_of_body hb).2] at hmine
  obtain ⟨p, hp, u, hu, hur, hname⟩ := (h f hf b hb).rows r.id hmine
  rw [hm.eq_of_row_id hu hr hur] at hname
  exact ⟨f, mem_live hf hb, b, p, hb, hp, hname⟩

omit [Scalar α] in
/-- Behind the variables and rows of the start are those of the formulations; no two of these variables have the
same name, and no two of these rows. -/
def Session.NamesApart (m₀ : Model α) (s : Session α) : Prop :=
  ∃ vs rs, s.model.vars = m₀.vars ++ vs ∧ s.model.rows = m₀.rows ++ rs ∧
    vs.map (·.id) = s.vars ∧ (rs.map (·.id)).Perm s.rows ∧
    (vs.map (·.name)).Nodup ∧ (rs.map (·.name)).Nodup

/-- Whatever networks are formulated in a model, given other bounds, evaluated and removed: if the formulations
that are left have distinct texts as names, whatever these are, then no two of their variables have the same
name, and no two of their rows. -/
theorem names_distinct {w : Workspace α} {s : Session α} {ts : List String} (hm : w.model.WellFormed)
    (hobjective : ∀ t ∈ w.model.objective.expression.terms, t.var < w.model.nextVar)
    (hrun : Session.Run ⟨w, []⟩ s) (hnames : s.live.map (·.name) = ts.map .text) (hts : ts.Nodup) :
    s.NamesApart w.model := by
  have hstart : Owned w.model (⟨w, []⟩ : Session α).model [] := Owned.start hm
  have howned := hstart.run hm hobjective hrun
  have hnamed : ∀ f ∈ s.formulations, f.Named s.model :=
    hrun.named hstart hm hobjective fun f hf => absurd hf List.not_mem_nil
  obtain ⟨vs, rs, hg, hv, hr⟩ := howned.adds
  have hvars : ∀ v ∈ vs, s.Has Body.var? (fun p t => p.name t) v.id v.name := by
    intro v hmem
    have hmine : v.id ∈ vs.map (·.id) := List.mem_map_of_mem hmem
    rw [hv] at hmine
    refine Session.has_var howned.wellFormed hnamed ?_ hmine
    show v ∈ s.workspace.model.vars
    rw [hg.vars]
    exact List.mem_append_right _ hmem
  have hrows : ∀ r ∈ rs, s.Has Body.row? (fun p t => p.name t) r.id r.name := by
    intro r hmem
    refine Session.has_row howned.wellFormed hnamed ?_ (hr.mem_iff.1 (List.mem_map_of_mem hmem))
    show r ∈ s.workspace.model.rows
    rw [hg.rows]
    exact List.mem_append_right _ hmem
  refine ⟨vs, rs, hg.vars, hg.rows, hv, hr, nodup_names hg.vars_nodup fun v hmem v' hmem' hsame => ?_,
    nodup_names hg.rows_nodup fun r hmem r' hmem' hsame => ?_⟩
  · have hother := hvars v' hmem'
    rw [← hsame] at hother
    exact (hvars v hmem).unique hother hnames hts fun _ _ => VarPart.name_inj
  · have hother := hrows r' hmem'
    rw [← hsame] at hother
    exact (hrows r hmem).unique hother hnames hts fun hp hq =>
      RowPart.name_inj (Body.plain_of_row? hp) (Body.plain_of_row? hq)

end Clash

/-- Arguments for the absolute value under a name. -/
def BuildArguments.absoluteNamed (mode t : String) : BuildArguments Rat := { absolute mode with name := .text t }

theorem BuildArguments.faithful_absoluteNamed (mode t : String) : (absoluteNamed mode t).Faithful :=
  ⟨trivial, trivial⟩

/-- The absolute value formulated twice, without a name and under one that looks like that of a variable; then
the second formulation is given other bounds. -/
theorem names_distinct_absolute :
    ∃ s : Session Rat, Session.Run ⟨.ofModel (.empty "model"), []⟩ s ∧
      s.live.map (·.name) = ["", "x[0]"].map .text ∧ ["", "x[0]"].Nodup ∧ s.NamesApart (.empty "model") := by
  have hrun : (match formulateNetwork .blind none (.absoluteNamed "output" "") (.ofModel (.empty "model")) with
      | .ok f w₁ =>
        match formulateNetwork .blind none (.absoluteNamed "fast" "x[0]") w₁ with
        | .ok g w₂ =>
          match g.replaceBigM (.bool true) (.int (-1)) ⟨.ok 0, .ok (.ofVector [0]), .ok 0⟩
            ⟨.ok 2, .ok (.ofVector [2]), .ok 2⟩ w₂ with
          | .ok ⟨g', none⟩ _ =>
            f.body?.isSome && f.name.isText "" && (g'.body?.isSome && g'.name.isText "x[0]")
          | _ => false
        | _ => false
      | _ => false) = true := by decide +kernel
  split at hrun
  · rename_i f w₁ hfirst
    split at hrun
    · rename_i g w₂ hsecond
      split at hrun
      · rename_i g' w₃ hrevise
        simp only [Bool.and_eq_true, Value.isText_iff] at hrun
        obtain ⟨⟨hf, hname⟩, hg, hname'⟩ := hrun
        have hbuilt : Session.Run ⟨.ofModel (.empty "model"), []⟩ ⟨w₂, [f, g]⟩ :=
          (Session.Run.refl.step (.build _ _ _ (BuildArguments.faithful_absoluteNamed "output" "") hfirst)).step
            (.build _ _ _ (BuildArguments.faithful_absoluteNamed "fast" "x[0]") hsecond)
        have hrevised : Session.Run ⟨.ofModel (.empty "model"), []⟩ ⟨w₃, [f, g']⟩ :=
          hbuilt.step (.revise (i := 1) ⟨.bool true, .int (-1), _, _⟩ rfl hrevise)
        have hnames : (⟨w₃, [f, g']⟩ : Session Rat).live.map (·.name) = ["", "x[0]"].map .text := by
          simp [Session.live, hf, hg, hname, hname']
        have hts : ["", "x[0]"].Nodup := by decide
        exact ⟨_, hrevised, hnames, hts, names_distinct (Model.wellFormed_empty "model")
          (fun t ht => absurd ht List.not_mem_nil) hrevised hnames hts⟩
      · cases hrun
    · cases hrun
  · cases hrun

end ReluMilp
