import ReluMilp.Formulation.Entry
import ReluMilp.Proofs.Succeeding

/-!
# Faults that blame a parameter

A build ends with other faults only: none of them says that a precondition on a parameter does not hold.

* `Fault.blames`, `Action.Blameless` — a fault that says so, and an action that never ends with one;
* `Action.bind_blameless` — composition, where the rest sees what came before;
* `Solver.Blameless` — what is relied on of a solver;
* `tightenLayer_blameless` — no problem of a layer gives such a fault;
* `length_buildHidden_bounds`, `buildHidden_blameless` — every layer is given as many bounds as it reads
  values, so that its propagation is not refused;
* `retighten_blameless` — only hidden layers get new rows;
* `Request.build_blameless` — so nothing that a build adds is followed by such a fault.
-/

namespace ReluMilp

/-- A fault says that a precondition on a parameter does not hold. -/
def Fault.blames : Fault → Bool
  | parameter _ => true
  | _ => false

theorem mapM_eq_error {β γ : Type} {f : β → Except Fault γ} {bs : List β} {e : Fault}
    (h : bs.mapM f = .error e) : ∃ b ∈ bs, f b = .error e := by
  induction bs with
  | nil => cases h
  | cons b bs ih =>
    rw [List.mapM_cons] at h
    cases hb : f b with
    | error e' =>
      rw [hb] at h
      cases h
      exact ⟨b, List.mem_cons_self, hb⟩
    | ok c =>
      rw [hb] at h
      cases hbs : bs.mapM f with
      | error e' =>
        rw [hbs] at h
        cases h
        obtain ⟨b', hb', he⟩ := ih hbs
        exact ⟨b', List.mem_cons_of_mem b hb', he⟩
      | ok cs =>
        rw [hbs] at h
        cases h

/-! ### Actions -/

namespace Action

variable {α β γ : Type}

/-- An action does not end with a fault that blames a parameter. -/
def Blameless (act : Action α β) (w : Workspace α) : Prop :=
  ∀ f v, act w = .error f v → f.blames = false

theorem blameless_of_ok {act : Action α β} {b : β} {w v : Workspace α} (h : act w = .ok b v) :
    act.Blameless w := by
  intro f u hf
  rw [h] at hf
  cases hf

theorem pure_blameless (b : β) (w : Workspace α) : (pure b : Action α β).Blameless w :=
  blameless_of_ok (pure_eq_ok.2 ⟨rfl, rfl⟩)

theorem throw_blameless {f : Fault} (hf : f.blames = false) (w : Workspace α) :
    (throw f : Action α β).Blameless w := by
  intro f' v h
  cases h
  exact hf

theorem ofExcept_blameless {e : Except Fault β} (h : ∀ f, e = .error f → f.blames = false)
    (w : Workspace α) : (ofExcept e : Action α β).Blameless w := by
  intro f v hf
  cases e with
  | ok b => cases hf
  | error f' =>
    cases hf
    exact h f rfl

/-- What follows need not blame a parameter where the first action leads. -/
theorem bind_blameless {act : Action α β} {next : β → Action α γ} {w : Workspace α}
    (h : act.Blameless w) (hnext : ∀ b v, act w = .ok b v → (next b).Blameless v) :
    (act >>= next).Blameless w := by
  intro f v hf
  cases hact : act w with
  | ok b u =>
    rw [bind_of_eq_ok hact] at hf
    exact hnext b u hact f v hf
  | error f' u =>
    rw [bind_of_eq_error hact] at hf
    cases hf
    exact h f v hact

theorem update_blameless {g : Model α → Except Fault (Model α × β)} {w : Workspace α}
    (h : ∀ f, g w.model = .error f → f.blames = false) : (update g).Blameless w := by
  intro f v hf
  unfold update at hf
  split at hf
  · cases hf
  · rename_i hg
    cases hf
    exact h f hg

theorem onCopy_blameless {copy : Model α → Except Fault (Model α)} {act : Action α β} {w : Workspace α}
    (hcopy : ∀ f, copy w.model = .error f → f.blames = false) (h : ∀ v, act.Blameless v) :
    (onCopy copy act).Blameless w := by
  intro f v hf
  unfold onCopy at hf
  split at hf
  · rename_i hc
    cases hf
    exact hcopy f hc
  · split at hf
    · cases hf
    · rename_i hact
      cases hf
      exact h _ f _ hact

theorem bracket_blameless {before : Model α → Model α} {after : Model α → Model α → Model α}
    {act : Action α β} (h : ∀ v, act.Blameless v) (w : Workspace α) :
    (bracket before after act).Blameless w := by
  intro f v hf
  unfold bracket at hf
  split at hf
  · cases hf
  · rename_i hact
    cases hf
    exact h _ f _ hact

variable [Scalar α]

theorem stage_blameless (blocks : List (RowBlock α)) (w : Workspace α) :
    (stage blocks).Blameless w := by
  intro f v hf
  unfold stage at hf
  split at hf
  · rename_i hrows
    cases hf
    unfold Model.addRows at hrows
    split at hrows
    · cases hrows
    · cases hrows
      rfl
  · split at hf
    · cases hf
      rfl
    · cases hf

theorem commit_blameless (blocks : List (RowBlock α)) (w : Workspace α) :
    (commit blocks).Blameless w := by
  intro f v hf
  unfold commit at hf
  split at hf
  · cases hf
  · rename_i hstage
    cases hf
    exact stage_blameless blocks w f _ hstage

end Action

/-- No fault of a solver blames a parameter of a build. -/
def Solver.Blameless {α : Type} (solver : Solver α) : Prop :=
  ∀ k m f, solver k m = .error f → f.blames = false

section

variable {α : Type}

theorem solve_blameless {solver : Solver α} (hs : solver.Blameless) (w : Workspace α) :
    (Action.solve solver).Blameless w := by
  intro f v hf
  unfold Action.solve at hf
  dsimp only at hf
  split at hf
  · cases hf
  · rename_i hsolve
    cases hf
    exact hs _ _ f hsolve

theorem setAll_blameless {p q : Parameters} {cs : List Parameters.Change} {f : Fault}
    (h : p.setAll cs = (q, some f)) : f.blames = false := by
  induction cs generalizing p with
  | nil => cases h
  | cons c cs ih =>
    unfold Parameters.setAll at h
    split at h
    · exact ih h
    · rename_i hset
      cases h
      unfold Parameters.set at hset
      split at hset
      · cases hset
      · split at hset
        · cases hset
        · cases hset
          split
          · rfl
          · rfl
      · cases hset

theorem copyUnder_blameless {s : Settings} {m : Model α} {f : Fault} (h : copyUnder s m = .error f) :
    f.blames = false := by
  unfold copyUnder at h
  split at h
  · cases h
  · rename_i hset
    cases h
    exact setAll_blameless hset

theorem positions_blameless {m : Model α} {ids : List VarId} {f : Fault}
    (h : m.positions ids = .error f) : f.blames = false := by
  obtain ⟨id, -, hid⟩ := mapM_eq_error h
  cases hfind : m.vars.findIdx? (·.id = id) with
  | none =>
    rw [hfind] at hid
    cases hid
    rfl
  | some k =>
    rw [hfind] at hid
    cases hid

theorem truncate_blameless {x : Float} {f : Fault} (h : Value.truncate x = .error f) :
    f.blames = false := by
  unfold Value.truncate at h
  split at h
  · cases h
  · cases h
    rfl
  · cases h
    rfl

theorem truncated_blameless {v : Value} {f : Fault} (h : v.truncated = .error f) : f.blames = false := by
  unfold Value.truncated at h
  split at h
  · cases h
  · cases h
  · exact truncate_blameless h
  · rename_i s
    cases hread : readWhole? s with
    | none =>
      rw [hread] at h
      cases h
      rfl
    | some n =>
      rw [hread] at h
      cases h
  · cases h
    rfl

/-- No number of jobs is a fault of its own kind. -/
theorem Jobs.ofValue_blameless {v : Value} {f : Fault} (h : Jobs.ofValue v = .none f) :
    f.blames = false := by
  unfold Jobs.ofValue at h
  split at h
  · cases h
  · split at h
    · cases h
    · split at h
      · rename_i htrunc
        cases h
        exact truncated_blameless htrunc
      · split at h
        · cases h
          rfl
        · cases h

end

/-! ### Problems of a layer -/

section Tightening

variable {α : Type} [Scalar α] {solver : Solver α}

theorem aim_blameless (e : Linear α) (maximize : Bool) (w : Workspace α) :
    (aim e maximize).Blameless w := by
  refine Action.update_blameless fun f hf => ?_
  unfold Model.setObjective at hf
  split at hf
  · cases hf
  · cases hf
    rfl

theorem optimalValue_blameless (hs : solver.Blameless) (e : Linear α) (maximize : Bool) (w : Workspace α) :
    (optimalValue solver e maximize).Blameless w := by
  refine Action.bind_blameless (aim_blameless e maximize w) fun _ v₁ _ => ?_
  refine Action.bind_blameless (solve_blameless hs v₁) fun r v₂ _ => ?_
  exact Action.bind_blameless (Action.blameless_of_ok rfl) fun m v₃ _ => Action.pure_blameless _ v₃

theorem neuronOptima_blameless (hs : solver.Blameless) (prev : List VarId) (n : Neuron α)
    (w : Workspace α) : (neuronOptima solver prev n).Blameless w := by
  have hexp : ∀ f, n.expression prev = .error f → f.blames = false := by
    intro f hf
    unfold Neuron.expression at hf
    split at hf
    · cases hf
    · cases hf
      rfl
  refine Action.bind_blameless (Action.ofExcept_blameless hexp w) fun e v₁ _ => ?_
  refine Action.bind_blameless (optimalValue_blameless hs e true v₁) fun upper v₂ _ => ?_
  exact Action.bind_blameless (optimalValue_blameless hs e false v₂) fun lower v₃ _ => Action.pure_blameless _ v₃

omit [Scalar α] in
theorem eachNeuron_blameless {β : Type} {act : Neuron α → Action α β}
    (step : ∀ n w, (act n).Blameless w) (ns : List (Neuron α)) (w : Workspace α) :
    (eachNeuron act (ns.map .ok)).Blameless w := by
  induction ns generalizing w with
  | nil => exact Action.pure_blameless _ w
  | cons n ns ih =>
    refine Action.bind_blameless (step n w) fun b v _ => ?_
    exact Action.bind_blameless (ih v) fun bs u _ => Action.pure_blameless _ u

theorem tightenLayer_blameless (hs : solver.Blameless) (s : Settings) {jobs : Jobs}
    (hjobs : ∀ f, jobs = .none f → f.blames = false) (prev : List VarId) (l : Layer α)
    (known : List (Interval α)) (w : Workspace α) :
    (tightenLayer solver s jobs prev l known).Blameless w := by
  refine Action.bind_blameless ?_ fun os v _ => Action.pure_blameless _ v
  refine Action.bind_blameless (Action.blameless_of_ok rfl) fun _ v _ => ?_
  cases jobs with
  | none f => exact Action.throw_blameless (hjobs f rfl) v
  | inPlace =>
    refine Action.bracket_blameless (fun u => ?_) v
    exact eachNeuron_blameless (neuronOptima_blameless hs prev) l.neurons u
  | onCopies =>
    refine Action.bind_blameless (Action.blameless_of_ok rfl) fun m v₁ _ => ?_
    refine Action.bind_blameless (Action.ofExcept_blameless (fun _ => positions_blameless) v₁) fun ks v₂ _ => ?_
    refine eachNeuron_blameless (fun n u => ?_) l.neurons v₂
    refine Action.onCopy_blameless (fun _ => copyUnder_blameless) fun u₁ => ?_
    refine Action.bind_blameless (Action.blameless_of_ok rfl) fun m u₂ _ => ?_
    exact Action.bracket_blameless (neuronOptima_blameless hs _ n) u₂

end Tightening

/-! ### Layers -/

section Layers

variable {α : Type} [Scalar α] {solver : Solver α} {r : Request α}

/-- What is relied on where the problems of a request are solved. -/
structure Request.Blameless (r : Request α) (solver : Solver α) : Prop where
  solver : solver.Blameless
  jobs : ∀ f, r.jobs = .none f → f.blames = false

/-- The bounds of a layer are only refused if those before it are too few or too many. -/
theorem layerBounds_blameless (hr : r.Blameless solver) (k : Nat) (prev : List VarId) (rectified : Bool)
    {before : List (Interval α)} {l : Layer α} (hbefore : before.length = l.inputs) (w : Workspace α) :
    (layerBounds solver r k prev rectified before l).Blameless w := by
  unfold layerBounds
  cases r.given with
  | some table => exact Action.pure_blameless _ w
  | none =>
    have hpropagate : l.propagate rectified before = .ok (l.intervals rectified before) := if_pos hbefore
    refine Action.bind_blameless (Action.blameless_of_ok (Action.ofExcept_eq_ok.2 ⟨hpropagate, rfl⟩))
      fun is v _ => ?_
    cases r.plan with
    | fast => exact Action.pure_blameless _ v
    | output range => exact Action.pure_blameless _ v
    | standard => exact tightenLayer_blameless hr.solver r.settings hr.jobs prev l is v

omit [Scalar α] in
theorem addVector_blameless (name : String) (n : Nat) (kind : VarKind) (lower upper : Limit α)
    (w : Workspace α) : (addVector name n kind lower upper).Blameless w := by
  refine Action.update_blameless fun f hf => ?_
  unfold Model.addVars at hf
  split at hf
  · cases hf
  · cases hf
    rfl

theorem addHidden_blameless (name : Value) (k : Nat) (prev : List VarId) (l : Layer α)
    (is : List (Interval α)) (w : Workspace α) : (addHidden name k prev l is).Blameless w := by
  refine Action.bind_blameless (addVector_blameless _ _ _ _ _ w) fun xs v₁ _ => ?_
  refine Action.bind_blameless (addVector_blameless _ _ _ _ _ v₁) fun ss v₂ _ => ?_
  refine Action.bind_blameless (addVector_blameless _ _ _ _ _ v₂) fun zs v₃ _ => ?_
  refine Action.bind_blameless (Action.blameless_of_ok rfl) fun base v₄ _ => ?_
  exact Action.bind_blameless (Action.commit_blameless _ v₄) fun _ v₅ _ => Action.pure_blameless _ v₅

/-- The layer after hidden layers that were built gets as many bounds as it reads values. -/
theorem length_buildHidden_bounds {i : Nat} {prev : List VarId} {rectified : Bool}
    {before : List (Interval α)} {ls : List (Layer α)} {out : Layer α} {stem : Stem α}
    {w w' : Workspace α} (hfits : r.Fits i ls) (hchain : Chained (ls ++ [out]))
    (hbefore : before.length = (ls.head?.getD out).inputs)
    (h : buildHidden solver r (i + 1) prev rectified before ls w = .ok stem w') :
    stem.bounds.length = out.inputs := by
  induction ls generalizing i prev rectified before stem w with
  | nil =>
    obtain ⟨rfl, -⟩ := Action.pure_eq_ok.1 h
    exact hbefore
  | cons l ls ih =>
    obtain ⟨is, us, rest, w₁, w₂, his, -, hrest, rfl⟩ := buildHidden_cons h
    obtain ⟨hchain', hhead⟩ := hchain.tail
    have hlast : rest.bounds.length = out.inputs :=
      ih hfits.tail hchain' ((length_layerBounds hfits his).trans hhead.symm) hrest
    exact hlast

/-- Widths carry the induction: a layer gives as many bounds as the next one reads. -/
theorem buildHidden_blameless (hr : r.Blameless solver) {i : Nat} (prev : List VarId) (rectified : Bool)
    {before : List (Interval α)} {ls : List (Layer α)} {out : Layer α} (hfits : r.Fits i ls)
    (hchain : Chained (ls ++ [out])) (hbefore : before.length = (ls.head?.getD out).inputs)
    (w : Workspace α) : (buildHidden solver r (i + 1) prev rectified before ls).Blameless w := by
  induction ls generalizing i prev rectified before w with
  | nil => exact Action.pure_blameless _ w
  | cons l ls ih =>
    obtain ⟨hchain', hhead⟩ := hchain.tail
    refine Action.bind_blameless (layerBounds_blameless hr _ _ _ hbefore w) fun is v his => ?_
    refine Action.bind_blameless (addHidden_blameless _ _ _ _ _ v) fun us u _ => ?_
    have hlen := length_layerBounds hfits his
    refine Action.bind_blameless (ih _ true hfits.tail hchain' (hlen.trans hhead.symm) u) fun stem x _ => ?_
    exact Action.pure_blameless _ x

theorem replaceUnits_blameless (name : Value) (k i : Nat) (us : List HiddenUnit) (is : List (Interval α))
    (w : Workspace α) : (replaceUnits name k i us is).Blameless w := by
  induction us generalizing i is w with
  | nil => exact Action.pure_blameless _ w
  | cons u us ih =>
    cases is with
    | nil => exact Action.pure_blameless _ w
    | cons j is =>
      have hunit : (replaceUnit name (indexValue k) (indexValue i) u j).Blameless w := by
        refine Action.bind_blameless (Action.blameless_of_ok rfl) fun _ v₁ _ => ?_
        refine Action.bind_blameless (Action.blameless_of_ok rfl) fun base v₂ _ => ?_
        exact Action.bind_blameless (Action.commit_blameless _ v₂) fun _ v₃ _ => Action.pure_blameless _ v₃
      refine Action.bind_blameless hunit fun u' v _ => ?_
      exact Action.bind_blameless (ih (i + 1) is v) fun us' x _ => Action.pure_blameless _ x

/-- The layers that are bounded again are hidden ones. -/
theorem retighten_blameless (hr : r.Blameless solver) {k : Nat} (prev : List VarId)
    {ls : List (Layer α)} (uss : List (List HiddenUnit)) (iss : List (List (Interval α))) (hk : 1 ≤ k)
    (hlast : k + ls.length ≤ r.network.hidden.length + 1) (w : Workspace α) :
    (retighten solver r k prev ls uss iss).Blameless w := by
  induction ls generalizing k prev uss iss w with
  | nil => exact Action.pure_blameless _ w
  | cons l ls ih =>
    rw [List.length_cons] at hlast
    cases uss with
    | nil => exact Action.pure_blameless _ w
    | cons us uss =>
    cases iss with
    | nil => exact Action.pure_blameless _ w
    | cons is iss =>
      have hcheck : r.network.checkHidden k = .ok () := Network.checkHidden_succeeds hk (by omega)
      have htighten := tightenLayer_blameless hr.solver r.settings hr.jobs prev l is w
      refine Action.bind_blameless htighten fun js v₁ _ => ?_
      refine Action.bind_blameless (Action.blameless_of_ok (Action.ofExcept_eq_ok.2 ⟨hcheck, rfl⟩))
        fun _ v₂ _ => ?_
      refine Action.bind_blameless (replaceUnits_blameless _ k 0 us js v₂) fun us' v₃ _ => ?_
      refine Action.bind_blameless (ih _ uss iss (by omega) (by omega) v₃) fun q v₄ _ => ?_
      exact Action.pure_blameless _ v₄

/-- No fault of a build blames a parameter, whatever the model and wherever the build ends. -/
theorem Request.build_blameless (hr : r.Blameless solver) (hwf : r.WellFormed) (w : Workspace α) :
    (r.build solver).Blameless w := by
  have hhead : r.box.length = (r.network.hidden.head?.getD r.network.output).inputs := hwf.box_length
  refine Action.bind_blameless (addVector_blameless _ _ _ _ _ w) fun inputs v₁ _ => ?_
  refine Action.bind_blameless (Action.commit_blameless _ v₁) fun inputRows v₂ _ => ?_
  have hhidden := buildHidden_blameless hr inputs false hwf.fits_hidden r.network.chained hhead v₂
  refine Action.bind_blameless hhidden fun stem v₃ hstem => ?_
  have hbounds := length_buildHidden_bounds hwf.fits_hidden r.network.chained hhead hstem
  refine Action.bind_blameless (layerBounds_blameless hr _ _ _ hbounds v₃) fun is v₄ _ => ?_
  refine Action.bind_blameless (addVector_blameless _ _ _ _ _ v₄) fun outputs v₅ _ => ?_
  refine Action.bind_blameless (Action.commit_blameless _ v₅) fun rows v₆ _ => ?_
  dsimp only
  cases r.plan with
  | fast => exact Action.pure_blameless _ v₆
  | standard => exact Action.pure_blameless _ v₆
  | output range =>
    have hagain : (retighten solver r 1 inputs r.network.hidden stem.units stem.table).Blameless v₆ :=
      retighten_blameless hr inputs stem.units stem.table le_rfl (Nat.add_comm 1 _).le v₆
    exact Action.bind_blameless hagain fun q v₇ _ => Action.pure_blameless _ v₇

end Layers

end ReluMilp
