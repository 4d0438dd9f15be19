import ReluMilp.Proofs.Improving
import ReluMilp.Proofs.Jobs
import Mathlib.Logic.Relation

/-!
# The order of problems on copies

Problems of a layer that are solved on copies may be started and ended in any order.

* `Task` — how far the problems of one neuron are, `Task.Step` — what is done next on its copy;
* `Pool` — a model in use and a task per neuron, `Pool.Step` — a step of any task, `Pool.Run`;
* `optimaOnCopy_steps`, `layerOptima_run` — one neuron after the other is one of the orders;
* `Pool.OnTrack` — what the tasks have reached; `Pool.OnTrack.step`, `Pool.OnTrack.run`;
* `Pool.OnTrack.finish` — whatever happened so far, all tasks can be finished;
* `tightening_order_neutral` — one job, any other number of jobs and any order give the same bounds.
-/

namespace ReluMilp

variable {α : Type}

section

variable [Scalar α]

/-! ### Tasks -/

/-- How far the problems of one neuron are: its copy of the model may be made, with the variables that are
read found on it, and may be maximised. -/
inductive Task (α : Type) where
  | waiting
  | copied (v : Workspace α) (vars : List VarId)
  | halfway (v : Workspace α) (vars : List VarId) (upper : Option α)
  | finished (o : Optima α)

/-- What is done next for a neuron. The model is copied, maximised and minimised; solves count the attempts of
all tasks. -/
inductive Task.Step (solver : Solver α) (s : Settings) (positions : List Nat) (m : Model α) (n : Neuron α) :
    Nat → Task α → Nat → Task α → Prop
  | copy {k : Nat} {c : Model α} : copyUnder s m = .ok c →
      Step solver s positions m n k .waiting k
        (.copied ((Workspace.ofModel c).withModel (if s.relax then c.relaxed else c)) (c.atPositions positions))
  | maximize {k : Nat} {v v' : Workspace α} {vars : List VarId} {e : Linear α} {upper : Option α} :
      n.expression vars = .ok e → optimalValue solver e true { v with attempts := k } = .ok upper v' →
      Step solver s positions m n k (.copied v vars) v'.attempts (.halfway v' vars upper)
  | minimize {k : Nat} {v v' : Workspace α} {vars : List VarId} {e : Linear α} {upper lower : Option α} :
      n.expression vars = .ok e → optimalValue solver e false { v with attempts := k } = .ok lower v' →
      Step solver s positions m n k (.halfway v vars upper) v'.attempts (.finished ⟨upper, lower⟩)

/-- How many steps a task still takes. -/
def Task.work : Task α → Nat
  | waiting => 3
  | copied _ _ => 2
  | halfway _ _ _ => 1
  | finished _ => 0

theorem Task.Step.work {solver : Solver α} {s : Settings} {positions : List Nat} {m : Model α}
    {n : Neuron α} {k k' : Nat} {t t' : Task α} (h : Task.Step solver s positions m n k t k' t') :
    t.work = t'.work + 1 := by
  cases h with
  | copy _ => rfl
  | maximize _ _ => rfl
  | minimize _ _ => rfl

/-- What is done for one neuron without interruption are the steps of its task. -/
theorem optimaOnCopy_steps {solver : Solver α} {s : Settings} {positions : List Nat} {n : Neuron α}
    {o : Optima α} {w w' : Workspace α} (h : optimaOnCopy solver s positions n w = .ok o w') :
    w' = { w with attempts := w'.attempts } ∧ ∃ k t t',
      Task.Step solver s positions w.model n w.attempts .waiting w.attempts t ∧
      Task.Step solver s positions w.model n w.attempts t k t' ∧
      Task.Step solver s positions w.model n k t' w'.attempts (.finished o) := by
  obtain ⟨c, v, hcopy, hsub, rfl⟩ := Action.onCopy_eq_ok h
  obtain ⟨m, v₁, hm, hsub⟩ := Action.bind_eq_ok.1 hsub
  obtain ⟨rfl, rfl⟩ := Action.model_eq_ok.1 hm
  obtain ⟨v₂, hact, rfl⟩ := Action.bracket_eq_ok hsub
  obtain ⟨e, v₃, hexp, hact⟩ := Action.bind_eq_ok.1 hact
  obtain ⟨he, rfl⟩ := Action.ofExcept_eq_ok.1 hexp
  obtain ⟨upper, v₄, hupper, hact⟩ := Action.bind_eq_ok.1 hact
  obtain ⟨lower, v₅, hlower, hact⟩ := Action.bind_eq_ok.1 hact
  obtain ⟨rfl, rfl⟩ := Action.pure_eq_ok.1 hact
  have hlast : Task.Step solver s positions w.model n v₄.attempts (.halfway v₄ (c.atPositions positions) upper)
      v₅.attempts (.finished ⟨upper, lower⟩) := .minimize he hlower
  exact ⟨rfl, _, _, _, .copy hcopy, .maximize he hupper, hlast⟩

/-! ### Pools -/

/-- A model in use, and a task for each neuron of a layer. -/
structure Pool (α : Type) where
  shared : Workspace α
  tasks : List (Task α)

/-- Any task may be the next one that does a step. -/
inductive Pool.Step (solver : Solver α) (s : Settings) (positions : List Nat) (ns : List (Neuron α)) :
    Pool α → Pool α → Prop
  | task {p : Pool α} {i k : Nat} {n : Neuron α} {t t' : Task α} : ns[i]? = some n → p.tasks[i]? = some t →
      Task.Step solver s positions p.shared.model n p.shared.attempts t k t' →
      Step solver s positions ns p ⟨{ p.shared with attempts := k }, p.tasks.set i t'⟩

/-- What steps of tasks lead to, in any order. -/
abbrev Pool.Run (solver : Solver α) (s : Settings) (positions : List Nat) (ns : List (Neuron α)) :
    Pool α → Pool α → Prop := Relation.ReflTransGen (Pool.Step solver s positions ns)

/-- A pool where nothing is done yet. -/
def Pool.start (w : Workspace α) (ns : List (Neuron α)) : Pool α :=
  ⟨w.settled, List.replicate ns.length .waiting⟩

/-- All tasks of a pool are finished, with some optima. -/
def Pool.Finished (p : Pool α) (os : List (Optima α)) : Prop := p.tasks = os.map .finished

section Order

variable {solver : Solver α} {s : Settings} {positions : List Nat}

/-- Neurons one after the other, once those before them are finished. -/
theorem eachNeuron_run (before : List (Neuron α)) (done : List (Optima α)) {ns : List (Neuron α)}
    {os : List (Optima α)} {w w' : Workspace α} (hlen : done.length = before.length)
    (h : eachNeuron (optimaOnCopy solver s positions) (ns.map .ok) w = .ok os w') :
    Pool.Run solver s positions (before ++ ns) ⟨w, done.map .finished ++ List.replicate ns.length .waiting⟩
      ⟨w', (done ++ os).map .finished⟩ := by
  induction ns generalizing before done os w with
  | nil =>
    obtain ⟨rfl, rfl⟩ := Action.pure_eq_ok.1 h
    simpa using Relation.ReflTransGen.refl
  | cons n ns ih =>
    obtain ⟨o, w₁, hact, h⟩ := Action.bind_eq_ok.1 h
    obtain ⟨os', w₂, hrest, h⟩ := Action.bind_eq_ok.1 h
    obtain ⟨rfl, rfl⟩ := Action.pure_eq_ok.1 h
    obtain ⟨hw₁, k, t, t', h₁, h₂, h₃⟩ := optimaOnCopy_steps hact
    have hn : (before ++ n :: ns)[before.length]? = some n := by simp
    -- the task of this neuron is the one after those that are finished
    have hstep : ∀ {k k' : Nat} {u u' : Task α},
        Task.Step solver s positions w.model n k u k' u' →
        Pool.Step solver s positions (before ++ n :: ns)
          ⟨{ w with attempts := k }, done.map .finished ++ u :: List.replicate ns.length .waiting⟩
          ⟨{ w with attempts := k' }, done.map .finished ++ u' :: List.replicate ns.length .waiting⟩ := by
      intro k k' u u' hu
      have hset := Pool.Step.task (p := ⟨{ w with attempts := k },
        done.map .finished ++ u :: List.replicate ns.length .waiting⟩) hn (by simp [← hlen]) hu
      simpa [← hlen] using hset
    have hfirst := ((Relation.ReflTransGen.single (hstep h₁)).tail (hstep h₂)).tail (hstep h₃)
    have hnext := ih (before ++ [n]) (done ++ [o]) (by simp [hlen]) hrest
    rw [hw₁] at hnext
    exact hfirst.trans (by simpa using hnext)

/-- Neurons one after the other, as they are solved on copies, are one of the orders. -/
theorem layerOptima_run {prev : List VarId} {ns : List (Neuron α)} {os : List (Optima α)}
    {w w' : Workspace α} (hks : w.model.positions prev = .ok positions)
    (h : layerOptima solver s .onCopies prev (ns.map .ok) w = .ok os w') :
    Pool.Run solver s positions ns (.start w ns) ⟨w', os.map .finished⟩ := by
  obtain ⟨u, w₀, hsettle, h⟩ := Action.bind_eq_ok.1 h
  obtain ⟨m, w₁, hm, h⟩ := Action.bind_eq_ok.1 h
  obtain ⟨ks, w₂, hpos, h⟩ := Action.bind_eq_ok.1 h
  obtain rfl := Action.settle_eq_ok.1 hsettle
  obtain ⟨rfl, rfl⟩ := Action.model_eq_ok.1 hm
  obtain ⟨hks', rfl⟩ := Action.ofExcept_eq_ok.1 hpos
  rw [Workspace.settled_model, hks] at hks'
  cases hks'
  exact eachNeuron_run [] [] rfl h

/-! ### What tasks have reached -/

/-- A task has reached what it should on a problem: its copy is that problem but for the objective, and what
is known so far was given for it. -/
def Task.OnTrack (solver : Solver α) (m : Model α) (prev : List VarId) (n : Neuron α) : Task α → Prop
  | waiting => True
  | copied v vars => m.SameButObjective v.model ∧ vars = prev
  | halfway v vars upper => m.SameButObjective v.model ∧ vars = prev ∧
      solver.Gives m ⟨weightTerms n.weights prev, n.bias⟩ true upper
  | finished o => o.Reached solver m prev n

/-- The shared model is the one at the start, and every task has reached what it should. -/
structure Pool.OnTrack (solver : Solver α) (s : Settings) (m : Model α) (prev : List VarId)
    (ns : List (Neuron α)) (p : Pool α) : Prop where
  shared : p.shared.model = m
  count : p.tasks.length = ns.length
  tasks : ∀ (i : Nat) n t, ns[i]? = some n → p.tasks[i]? = some t →
    t.OnTrack solver (m.subject s.relax (Jobs.onCopies.parameters s m.parameters)) prev n

variable {m : Model α} {prev : List VarId}

/-- The copy that a task makes is the problem to be solved, and the variables that are read are found on it. -/
theorem onTrack_copied {c : Model α} {n : Neuron α} (hks : m.positions prev = .ok positions)
    (hc : copyUnder s m = .ok c) :
    (Task.copied ((Workspace.ofModel c).withModel (if s.relax then c.relaxed else c))
      (c.atPositions positions)).OnTrack solver
        (m.subject s.relax (Jobs.onCopies.parameters s m.parameters)) prev n := by
  rw [copyUnder_eq_ok hc]
  refine ⟨?_, atPositions_positions hks⟩
  cases s.relax with
  | false => rfl
  | true => rfl

theorem Task.OnTrack.step {n : Neuron α} {k k' : Nat} {t t' : Task α}
    (hks : m.positions prev = .ok positions)
    (h : t.OnTrack solver (m.subject s.relax (Jobs.onCopies.parameters s m.parameters)) prev n)
    (hstep : Task.Step solver s positions m n k t k' t') :
    t'.OnTrack solver (m.subject s.relax (Jobs.onCopies.parameters s m.parameters)) prev n := by
  cases hstep with
  | copy hc => exact onTrack_copied hks hc
  | maximize he hside =>
    obtain ⟨hsame, rfl⟩ := h
    obtain ⟨-, rfl⟩ := expression_eq_ok he
    obtain ⟨hsame', -, r, hr, rfl⟩ := optimalValue_eq_ok hside hsame
    exact ⟨hsame', rfl, hr.gives⟩
  | minimize he hside =>
    obtain ⟨hsame, rfl, hupper⟩ := h
    obtain ⟨hlen, rfl⟩ := expression_eq_ok he
    obtain ⟨-, -, r, hr, rfl⟩ := optimalValue_eq_ok hside hsame
    exact ⟨hlen, hupper, hr.gives⟩

/-- The step of one task moves neither the shared model nor any other task. -/
theorem Pool.OnTrack.step {ns : List (Neuron α)} {p q : Pool α} (hks : m.positions prev = .ok positions)
    (h : p.OnTrack solver s m prev ns) (hstep : Pool.Step solver s positions ns p q) :
    q.OnTrack solver s m prev ns := by
  obtain ⟨hn, ht, hnext⟩ := hstep
  rw [h.shared] at hnext
  refine ⟨h.shared, by simp [h.count], fun j n' u hn' hu => ?_⟩
  rw [List.getElem?_set] at hu
  split at hu
  · rename_i hij
    subst hij
    rw [hn] at hn'
    cases hn'
    split at hu
    · cases hu
      exact (h.tasks _ _ _ hn ht).step hks hnext
    · cases hu
  · exact h.tasks j n' u hn' hu

theorem Pool.onTrack_start (w : Workspace α) (ns : List (Neuron α)) :
    (Pool.start w ns).OnTrack solver s w.model prev ns := by
  refine ⟨w.settled_model, by simp [Pool.start], fun i n t _ ht => ?_⟩
  obtain rfl := List.eq_of_mem_replicate (List.mem_of_getElem? ht)
  trivial

theorem Pool.OnTrack.run {ns : List (Neuron α)} {p q : Pool α} (hks : m.positions prev = .ok positions)
    (h : p.OnTrack solver s m prev ns) (hrun : Pool.Run solver s positions ns p q) :
    q.OnTrack solver s m prev ns := by
  induction hrun with
  | refl => exact h
  | tail _ hstep ih => exact ih.step hks hstep

/-- The optima of a pool whose tasks are all finished were reached. -/
theorem Pool.OnTrack.reached {ns : List (Neuron α)} {p : Pool α} {os : List (Optima α)}
    (h : p.OnTrack solver s m prev ns) (hos : p.Finished os) :
    List.Forall₂ (fun n o => o.Reached solver
      (m.subject s.relax (Jobs.onCopies.parameters s m.parameters)) prev n) ns os := by
  have hlen : ns.length = os.length := by rw [← h.count, hos, List.length_map]
  refine List.forall₂_iff_get.2 ⟨hlen, fun i hi hi' => ?_⟩
  have ht : p.tasks[i]? = some (.finished os[i]) := by rw [hos, List.getElem?_map, List.getElem?_eq_getElem hi']; rfl
  exact h.tasks i _ _ (List.getElem?_eq_getElem hi) ht

/-! ### Pools that come to an end -/

/-- How many steps the tasks of a pool still take. -/
def Pool.work (p : Pool α) : Nat := (p.tasks.map Task.work).sum

omit [Scalar α] in
theorem sum_map_set {β : Type} (f : β → Nat) {l : List β} {i : Nat} {a : β} (h : l[i]? = some a) (b : β) :
    ((l.set i b).map f).sum + f a = (l.map f).sum + f b := by
  induction l generalizing i with
  | nil => simp at h
  | cons c l ih =>
    cases i with
    | zero =>
      obtain rfl : c = a := by simpa using h
      simp only [List.set_cons_zero, List.map_cons, List.sum_cons]
      omega
    | succ i =>
      have hrest := ih (by simpa using h)
      simp only [List.set_cons_succ, List.map_cons, List.sum_cons]
      omega

/-- Every step leaves one step less, so that no order goes on for ever. -/
theorem Pool.Step.work {ns : List (Neuron α)} {p q : Pool α} (h : Pool.Step solver s positions ns p q) :
    p.work = q.work + 1 := by
  obtain @⟨i, k, n, t, t', -, ht, hnext⟩ := h
  have hsum := sum_map_set Task.work ht t'
  have hone := hnext.work
  show (p.tasks.map Task.work).sum = ((p.tasks.set i t').map Task.work).sum + 1
  omega

omit [Scalar α] in
/-- A pool is finished, or some task is not. -/
theorem Pool.finished_or (p : Pool α) :
    (∃ os, p.Finished os) ∨ ∃ t ∈ p.tasks, ∀ o, t ≠ .finished o := by
  by_cases hall : ∀ t ∈ p.tasks, ∃ o, t = .finished o
  · left
    have hrange : p.tasks ∈ Set.range (List.map Task.finished) := by
      rw [Set.range_list_map]
      intro t ht
      obtain ⟨o, rfl⟩ := hall t ht
      exact ⟨o, rfl⟩
    obtain ⟨os, hos⟩ := hrange
    exact ⟨os, hos.symm⟩
  · right
    push Not at hall
    exact hall

end Order

end

section Finish

variable {solver : Solver Rat} {s : Settings} {positions : List Nat} {m : Model Rat} {prev : List VarId}

/-- A task that is not finished can do a step. -/
theorem Task.OnTrack.exists_step (hs : solver.Total) (hset : s.Accepted) {n : Neuron Rat} {t : Task Rat}
    {problem : Model Rat} (hlen : n.weights.length = prev.length) (h : t.OnTrack solver problem prev n)
    (hopen : ∀ o, t ≠ .finished o) (k : Nat) : ∃ k' t', Task.Step solver s positions m n k t k' t' := by
  have hexp : n.expression prev = .ok ⟨weightTerms n.weights prev, n.bias⟩ := if_pos hlen
  cases t with
  | waiting =>
    obtain ⟨c, hc⟩ := copyUnder_succeeds hset m
    exact ⟨k, _, .copy hc⟩
  | copied v vars =>
    obtain ⟨-, rfl⟩ := h
    obtain ⟨upper, v', hupper⟩ := optimalValue_succeeds hs ⟨weightTerms n.weights vars, n.bias⟩ true
      { v with attempts := k }
    exact ⟨_, _, .maximize hexp hupper⟩
  | halfway v vars upper =>
    obtain ⟨-, rfl, -⟩ := h
    obtain ⟨lower, v', hlower⟩ := optimalValue_succeeds hs ⟨weightTerms n.weights vars, n.bias⟩ false
      { v with attempts := k }
    exact ⟨_, _, .minimize hexp hlower⟩
  | finished o => exact absurd rfl (hopen o)

theorem Pool.OnTrack.finished_or_step (hs : solver.Total) (hset : s.Accepted) {ns : List (Neuron Rat)}
    (hwidths : ∀ n ∈ ns, n.weights.length = prev.length) {p : Pool Rat} (h : p.OnTrack solver s m prev ns) :
    (∃ os, p.Finished os) ∨ ∃ q, Pool.Step solver s positions ns p q := by
  refine p.finished_or.imp_right ?_
  rintro ⟨t, ht, hopen⟩
  obtain ⟨i, hi, rfl⟩ := List.getElem_of_mem ht
  obtain ⟨n, hn⟩ : ∃ n, ns[i]? = some n := ⟨_, List.getElem?_eq_getElem (h.count ▸ hi)⟩
  have hti := List.getElem?_eq_getElem hi
  have hnext : ∃ k t', Task.Step solver s positions p.shared.model n p.shared.attempts p.tasks[i] k t' :=
    (h.tasks i _ _ hn hti).exists_step hs hset (hwidths _ (List.mem_of_getElem? hn)) hopen _
  obtain ⟨k, t', hstep⟩ := hnext
  exact ⟨_, .task hn hti hstep⟩

/-- Whatever was done so far and in which order, all tasks can be finished. -/
theorem Pool.OnTrack.finish (hs : solver.Total) (hset : s.Accepted) {ns : List (Neuron Rat)}
    (hwidths : ∀ n ∈ ns, n.weights.length = prev.length) (hks : m.positions prev = .ok positions)
    {p : Pool Rat} (h : p.OnTrack solver s m prev ns) :
    ∃ q os, Pool.Run solver s positions ns p q ∧ q.Finished os := by
  induction hk : p.work using Nat.strong_induction_on generalizing p with
  | _ k ih =>
    have hor : (∃ os, p.Finished os) ∨ ∃ q, Pool.Step solver s positions ns p q :=
      h.finished_or_step hs hset hwidths
    rcases hor with ⟨os, hos⟩ | ⟨q, hstep⟩
    · exact ⟨p, os, .refl, hos⟩
    · have hwork := hstep.work
      obtain ⟨r, os, hrun, hos⟩ := ih q.work (by omega) (h.step hks hstep) rfl
      exact ⟨r, os, hrun.head hstep, hos⟩

end Finish

/-! ### One job, several jobs, and their order -/

/-- One job on the model itself and any other number of jobs on copies give a layer the same bounds, if the
model has the parameters that the settings give to a copy. What happens on copies is one of the orders in
which tasks do their steps. So does every other order give these bounds: whatever was done so far, the shared
model is the one at the start and all problems can be finished, and once they are, the bounds are these. -/
theorem tightening_order_neutral {stops : Float → Model Rat → Bool} {solver : Solver Rat} {s : Settings}
    {prev : List VarId} {l : Layer Rat} {known : List (Interval Rat)} {w : Workspace Rat}
    (hs : solver.ExactUnless stops)
    (hparams : Parameters.default.setAll s.changes = (w.model.parameters, none))
    (hprev : w.model.HasVars prev) (hlen : l.inputs = prev.length) :
    ∃ is ks, w.model.positions prev = .ok ks ∧
      (∀ v, (∀ f, Jobs.ofValue v ≠ .none f) →
        ∃ u, tightenLayer solver s (.ofValue v) prev l known w = .ok is u ∧ u.model = w.model ∧
          (Jobs.ofValue v = .onCopies → ∃ os, improveAll known os = is ∧
            Pool.Run solver s ks l.neurons (.start w l.neurons) ⟨u, os.map .finished⟩)) ∧
      ∀ p, Pool.Run solver s ks l.neurons (.start w l.neurons) p →
        p.shared.model = w.model ∧ (∀ os, p.Finished os → improveAll known os = is) ∧
        ∃ q os, Pool.Run solver s ks l.neurons p q ∧ q.Finished os := by
  have hset := Settings.accepted_of_setAll hparams
  have hwidths : ∀ n ∈ l.neurons, n.weights.length = prev.length := fun n hn => (l.conform n hn).trans hlen
  have hcopies : Jobs.onCopies.parameters s w.model.parameters = w.model.parameters := by
    show (Parameters.default.setAll s.changes).1 = _
    rw [hparams]
  have hrun : ∃ os v, layerOptima solver s .onCopies prev (l.neurons.map .ok) w = .ok os v :=
    layerOptima_succeeds hs.total (fun _ => hset) nofun hprev hwidths
  obtain ⟨os₀, w₀, hos₀⟩ := hrun
  obtain ⟨-, hreached₀⟩ := layerOptima_reached hos₀
  rw [hcopies] at hreached₀
  obtain ⟨ks, hks⟩ := positions_succeed hprev
  refine ⟨improveAll known os₀, ks, hks, fun v hv => ?_, fun p hrun => ?_⟩
  · have hjobs : (Jobs.ofValue v).parameters s w.model.parameters = w.model.parameters := by
      cases Jobs.ofValue v with
      | inPlace => rfl
      | _ => exact hcopies
    obtain ⟨os, u, hos⟩ := layerOptima_succeeds hs.total (fun _ => hset) hv hprev hwidths
    obtain ⟨hm, hreached⟩ := layerOptima_reached hos
    rw [hjobs] at hreached
    rw [reached_unique hs rfl hreached₀ hreached]
    refine ⟨u, Action.bind_of_eq_ok hos, hm, fun hcopy => ⟨os, rfl, ?_⟩⟩
    rw [hcopy] at hos
    exact layerOptima_run hks hos
  · have htrack := (Pool.onTrack_start w l.neurons).run hks hrun
    refine ⟨htrack.shared, fun os hos => ?_, htrack.finish hs.total hset hwidths hks⟩
    have hreached := htrack.reached hos
    rw [hcopies] at hreached
    rw [reached_unique hs rfl hreached₀ hreached]

/-- Settings with two threads and a minute. -/
def Settings.minute : Settings := { Settings.default with threads := 2, timeLimit := 60 }

/-- A model under these settings whose only variable is not the first one that was made. -/
def Workspace.shifted : Workspace Rat :=
  .ofModel { Model.empty "model" with
    parameters := Settings.minute.inForce .default
    vars := [⟨5, "x", .continuous, .finite 0, .finite 1⟩]
    nextVar := 6 }

/-- Two neurons that read the same variable. -/
def Layer.fork : Layer Rat := ⟨1, [⟨[2], -1⟩, ⟨[-3], 0⟩], .identity, by simp⟩

/-- The copies of both neurons can be made before any of them is solved, the second one first. -/
theorem Pool.run_fork {solver : Solver Rat} {s : Settings} {ks : List Nat} {w : Workspace Rat} {c : Model Rat}
    (hc : copyUnder s w.model = .ok c) :
    ∃ p, Pool.Run solver s ks Layer.fork.neurons (.start w Layer.fork.neurons) p ∧
      p.tasks.map Task.work = [2, 2] := by
  rw [← w.settled_model] at hc
  obtain ⟨t, hwork, hcopy⟩ : ∃ t : Task Rat, t.work = 2 ∧
      ∀ n k, Task.Step solver s ks w.settled.model n k .waiting k t := ⟨_, rfl, fun n k => .copy hc⟩
  have hsecond : Pool.Step solver s ks Layer.fork.neurons (.start w Layer.fork.neurons)
      ⟨w.settled, [.waiting, t]⟩ := .task (i := 1) rfl rfl (hcopy _ _)
  have hfirst : Pool.Step solver s ks Layer.fork.neurons ⟨w.settled, [.waiting, t]⟩ ⟨w.settled, [t, t]⟩ :=
    .task (p := ⟨w.settled, [.waiting, t]⟩) (i := 0) rfl rfl (hcopy _ _)
  refine ⟨_, (Relation.ReflTransGen.single hsecond).tail hfirst, ?_⟩
  rw [List.map_cons, List.map_cons, hwork]
  rfl

/-- One job on the model and one per core on copies, where the variable is found at the first position and
both neurons are under way at the same time. -/
theorem tightening_order_neutral_shifted :
    ∃ is u u' p q os,
      tightenLayer .punctual .minute (.ofValue (.int 1)) [5] .fork [⟨5, -5⟩, ⟨5, -5⟩] .shifted = .ok is u ∧
      tightenLayer .punctual .minute (.ofValue (.int (-1))) [5] .fork [⟨5, -5⟩, ⟨5, -5⟩] .shifted = .ok is u' ∧
      u.model = u'.model ∧
      Pool.Run .punctual .minute [0] Layer.fork.neurons (.start .shifted Layer.fork.neurons) p ∧
      p.tasks.map Task.work = [2, 2] ∧ Pool.Run .punctual .minute [0] Layer.fork.neurons p q ∧
      q.Finished os ∧ improveAll [⟨5, -5⟩, ⟨5, -5⟩] os = is := by
  have hset : Settings.minute.Accepted := by decide
  have hprev : Workspace.shifted.model.HasVars [5] := by
    intro id hid
    exact ⟨⟨5, "x", .continuous, .finite 0, .finite 1⟩, List.mem_singleton.2 rfl, (List.mem_singleton.1 hid).symm⟩
  obtain ⟨is, ks, hks, hjobs, horder⟩ := tightening_order_neutral (l := .fork) (w := .shifted)
    exactUnless_punctual (hset.setAll _) hprev rfl
  obtain ⟨u, hu, hm, -⟩ := hjobs (.int 1) nofun
  obtain ⟨u', hu', hm', -⟩ := hjobs (.int (-1)) nofun
  have hzero : Workspace.shifted.model.positions [5] = .ok [0] := by decide +kernel
  rw [hzero] at hks
  cases hks
  obtain ⟨c, hc⟩ := copyUnder_succeeds hset Workspace.shifted.model
  obtain ⟨p, hp, hwork⟩ := Pool.run_fork hc
  obtain ⟨-, -, q, os, hq, hos⟩ := horder p hp
  obtain ⟨-, his, -⟩ := horder q (hp.trans hq)
  exact ⟨is, u, u', p, q, os, hu, hu', hm.trans hm'.symm, hp, hwork, hq, hos, his os hos⟩

end ReluMilp
