import Mathlib.Data.List.Induction
import ReluMilp.Predictor.Registry
import ReluMilp.Proofs.Requests

/-!
# Which convertor counts

A registry is what a history of registrations leaves. The convertor of a predictor is said of the history
itself: the latest registration under a key, the convertors of loaded families behind it, the kinds of a
lineage in their order, and the name of the first kind at the end. A kind that does not tell its order is
refused before anything is looked up.

* `Registry.ofHistory` — the registry after a history, `Latest` — the latest registration under a key,
  with `get?_ofHistory`;
* `Known` — the convertor under a key, with `known_iff`;
* `Chosen` — the convertor of a lineage, with `chosen_iff`;
* `Key.Concerns`, `find?_congr` — only the kinds of a lineage and the name of the first one matter;
* `network_dispatch` — the network of a predictor after any history.
-/

namespace ReluMilp

/-! ### Histories -/

section Histories

variable {β : Type} {h : List (Key × β)} {key : Key} {c : β}

/-- The registry after a history of registrations, the first one in front. -/
def Registry.ofHistory (h : List (Key × β)) : Registry β :=
  h.foldl (fun r e => r.register e.1 e.2) .empty

/-- The convertor was registered under the key, and nothing under that key after it. -/
def Latest (h : List (Key × β)) (key : Key) (c : β) : Prop :=
  ∃ before after, h = before ++ (key, c) :: after ∧ ∀ e ∈ after, e.1 ≠ key

/-- Nothing was registered under the key. -/
def Unregistered (h : List (Key × β)) (key : Key) : Prop := ∀ e ∈ h, e.1 ≠ key

theorem ofHistory_concat (h : List (Key × β)) (e : Key × β) :
    Registry.ofHistory (h ++ [e]) = (Registry.ofHistory h).register e.1 e.2 := by
  simp [Registry.ofHistory]

/-- The entry that stands last among those under a key counts. -/
theorem get?_ofHistory (h : List (Key × β)) (key : Key) :
    (Registry.ofHistory h).get? key = (h.filter fun e => e.1 = key).getLast?.map (·.2) := by
  induction h using List.reverseRecOn with
  | nil => rfl
  | append_singleton h e ih =>
    rw [ofHistory_concat]
    by_cases he : e.1 = key
    · simp [← he]
    · rw [Registry.get?_register_of_ne _ _ (Ne.symm he), ih]
      simp [he]

theorem filter_of_unregistered (hu : Unregistered h key) : (h.filter fun e => e.1 = key) = [] := by
  rw [List.filter_eq_nil_iff]
  intro e he
  simpa using hu e he

theorem get?_ofHistory_of_unregistered (hu : Unregistered h key) :
    (Registry.ofHistory h).get? key = none := by
  rw [get?_ofHistory, filter_of_unregistered hu]
  rfl

theorem get?_ofHistory_of_latest (hl : Latest h key c) : (Registry.ofHistory h).get? key = some c := by
  obtain ⟨before, after, rfl, hafter⟩ := hl
  have hnil := filter_of_unregistered hafter
  rw [get?_ofHistory, List.filter_append, List.filter_cons, hnil]
  simp

/-- Either nothing was registered under a key, or something was registered last. -/
theorem unregistered_or_latest (h : List (Key × β)) (key : Key) : Unregistered h key ∨ ∃ c, Latest h key c := by
  induction h with
  | nil => exact .inl fun e he => by simp at he
  | cons e h ih =>
    rcases ih with hu | ⟨c, before, after, rfl, hafter⟩
    · by_cases he : e.1 = key
      · exact .inr ⟨e.2, [], h, by simp [← he], hu⟩
      · exact .inl (List.forall_mem_cons.2 ⟨he, hu⟩)
    · exact .inr ⟨c, e :: before, after, rfl, hafter⟩

theorem latest_iff : Latest h key c ↔ (Registry.ofHistory h).get? key = some c := by
  refine ⟨get?_ofHistory_of_latest, fun hget => ?_⟩
  rcases unregistered_or_latest h key with hu | ⟨c', hl⟩
  · rw [get?_ofHistory_of_unregistered hu] at hget
    cases hget
  · rw [get?_ofHistory_of_latest hl] at hget
    cases hget
    exact hl

theorem unregistered_iff : Unregistered h key ↔ (Registry.ofHistory h).get? key = none := by
  refine ⟨get?_ofHistory_of_unregistered, fun hget => ?_⟩
  rcases unregistered_or_latest h key with hu | ⟨c, hl⟩
  · exact hu
  · rw [get?_ofHistory_of_latest hl] at hget
    cases hget

/-- Two registrations under different keys that follow each other may change places. -/
theorem get?_ofHistory_swap {e e' : Key × β} (hne : e.1 ≠ e'.1) (before after : List (Key × β)) (key : Key) :
    (Registry.ofHistory (before ++ e' :: e :: after)).get? key =
      (Registry.ofHistory (before ++ e :: e' :: after)).get? key := by
  have hpair : ([e', e].filter fun d => d.1 = key) = [e, e'].filter fun d => d.1 = key := by
    by_cases he : e.1 = key
    · have he' : ¬ e'.1 = key := fun h' => hne (he.trans h'.symm)
      simp [he, he']
    · by_cases he' : e'.1 = key
      · simp [he, he']
      · simp [he, he']
  have hsplit : ∀ a b : Key × β, before ++ a :: b :: after = before ++ ([a, b] ++ after) := fun _ _ => rfl
  rw [get?_ofHistory, get?_ofHistory, hsplit, hsplit]
  simp only [List.filter_append, hpair]

/-- A registration does not matter for other keys, wherever it stands in a history. -/
theorem get?_ofHistory_erase {e : Key × β} (hne : e.1 ≠ key) (before after : List (Key × β)) :
    (Registry.ofHistory (before ++ after)).get? key =
      (Registry.ofHistory (before ++ e :: after)).get? key := by
  rw [get?_ofHistory, get?_ofHistory]
  simp [hne]

end Histories

/-! ### Keys -/

theorem Registry.get?_before {β : Type} (r s : Registry β) (key : Key) :
    (r.before s).get? key = (r.get? key).or (s.get? key) := by
  unfold Registry.before Registry.get?
  rw [List.find?_append]
  cases r.entries.find? fun e => e.1 = key with
  | none => rfl
  | some e => rfl

namespace Predictor

theorem familyKey_injective : Function.Injective familyKey := by
  intro f g hfg
  cases f <;> cases g <;> first | rfl | simp [familyKey] at hfg

variable {α : Type} [Scalar α]

/-- The convertor of a family. -/
def familyConvertor (f : Family) : Convertor α := fun p => p.convertAs f .null

theorem get?_builtIn {loaded : List Family} {key : Key} {c : Convertor α} :
    (builtIn loaded).get? key = some c ↔ ∃ f ∈ loaded, key = familyKey f ∧ c = familyConvertor f := by
  have hentries : (builtIn loaded : Registry (Convertor α)).get? key =
      (loaded.find? fun f => familyKey f = key).map familyConvertor := by
    unfold builtIn Registry.get?
    rw [List.find?_map, Option.map_map]
    rfl
  rw [hentries, Option.map_eq_some_iff]
  constructor
  · rintro ⟨f, hf, rfl⟩
    have hkey : familyKey f = key := by simpa using List.find?_some hf
    exact ⟨f, List.mem_of_find?_eq_some hf, hkey.symm, rfl⟩
  · rintro ⟨f, hf, rfl, rfl⟩
    have hsome : (loaded.find? fun g => familyKey g = familyKey f).isSome := by
      rw [List.find?_isSome]
      exact ⟨f, hf, by simp⟩
    obtain ⟨g, hg⟩ := Option.isSome_iff_exists.1 hsome
    have hgf : g = f := familyKey_injective (by simpa using List.find?_some hg)
    exact ⟨g, hg, congrArg familyConvertor hgf⟩

end Predictor

/-! ### The convertor that counts -/

section Choice

variable {α : Type} [Scalar α]

/-- The convertor under a key: the one that was registered last, else that of a loaded family. -/
inductive Known (h : List (Key × Convertor α)) (loaded : List Family) (key : Key) : Convertor α → Prop
  | registered {c : Convertor α} : Latest h key c → Known h loaded key c
  | builtIn {f : Family} : Unregistered h key → f ∈ loaded → key = Predictor.familyKey f →
      Known h loaded key (Predictor.familyConvertor f)

/-- No convertor is known under a key. -/
def Unknown (h : List (Key × Convertor α)) (loaded : List Family) (key : Key) : Prop :=
  ∀ c, ¬ Known h loaded key c

/-- The convertor of a lineage: that of the first of its kinds that has one; if none of them has one, that
under the name of the first kind; else none. -/
inductive Chosen (h : List (Key × Convertor α)) (loaded : List Family) (lineage : List Kind) :
    Option (Convertor α) → Prop
  | kind {before after : List Kind} {k : Kind} {c : Convertor α} : lineage = before ++ k :: after →
      (∀ k' ∈ before, Unknown h loaded (.kind k')) → Known h loaded (.kind k) c →
      Chosen h loaded lineage (some c)
  | name {k : Kind} {c : Convertor α} : (∀ k' ∈ lineage, Unknown h loaded (.kind k')) →
      lineage.head? = some k → Known h loaded (.name k.name) c → Chosen h loaded lineage (some c)
  | none : (∀ k' ∈ lineage, Unknown h loaded (.kind k')) →
      (∀ k, lineage.head? = some k → Unknown h loaded (.name k.name)) → Chosen h loaded lineage .none

/-- All convertors after a history, those of loaded families behind those of the caller. -/
def convertors (h : List (Key × Convertor α)) (loaded : List Family) : Registry (Convertor α) :=
  (Registry.ofHistory h).before (Predictor.builtIn loaded)

variable {h : List (Key × Convertor α)} {loaded : List Family} {key : Key} {c : Convertor α}
  {lineage : List Kind}

theorem known_iff : Known h loaded key c ↔ (convertors h loaded).get? key = some c := by
  unfold convertors
  rw [Registry.get?_before]
  constructor
  · rintro (hl | ⟨hu, hf, hkey⟩)
    · rw [latest_iff.1 hl, Option.some_or]
    · rw [unregistered_iff.1 hu, Option.none_or]
      exact Predictor.get?_builtIn.2 ⟨_, hf, hkey, rfl⟩
  · intro hget
    rcases unregistered_or_latest h key with hu | ⟨c', hl⟩
    · rw [unregistered_iff.1 hu, Option.none_or] at hget
      obtain ⟨f, hf, hkey, rfl⟩ := Predictor.get?_builtIn.1 hget
      exact .builtIn hu hf hkey
    · rw [latest_iff.1 hl, Option.some_or] at hget
      cases hget
      exact .registered hl

theorem unknown_iff : Unknown h loaded key ↔ (convertors h loaded).get? key = none := by
  unfold Unknown
  rw [Option.eq_none_iff_forall_ne_some]
  exact forall_congr' fun c => not_congr known_iff

/-- The search of a registry finds what counts. -/
theorem chosen_find? (h : List (Key × Convertor α)) (loaded : List Family) (lineage : List Kind) :
    Chosen h loaded lineage ((convertors h loaded).find? lineage) := by
  unfold Registry.find?
  split
  · rename_i c hc
    obtain ⟨before, k, after, heq, hk, hbefore⟩ := List.findSome?_eq_some_iff.1 hc
    exact .kind heq (fun k' hk' => unknown_iff.2 (hbefore k' hk')) (known_iff.2 hk)
  · rename_i hnone
    have hkinds : ∀ k' ∈ lineage, Unknown h loaded (.kind k') := by
      intro k' hk'
      exact unknown_iff.2 (List.findSome?_eq_none_iff.1 hnone k' hk')
    cases hhead : lineage.head? with
    | none => exact .none hkinds fun k hk => by simp [hhead] at hk
    | some k =>
      rw [Option.bind_some]
      cases hname : (convertors h loaded).get? (.name k.name) with
      | none =>
        refine .none hkinds fun k' hk' => ?_
        cases hhead.symm.trans hk'
        exact unknown_iff.2 hname
      | some c => exact .name hkinds hhead (known_iff.2 hname)

/-- At most one convertor counts. -/
theorem Chosen.eq_find? {choice : Option (Convertor α)} (hc : Chosen h loaded lineage choice) :
    choice = (convertors h loaded).find? lineage := by
  have hnone : (∀ k' ∈ lineage, Unknown h loaded (.kind k')) →
      (convertors h loaded).find? lineage =
        lineage.head?.bind fun k => (convertors h loaded).get? (.name k.name) := by
    intro hkinds
    have hfind : lineage.findSome? (fun k => (convertors h loaded).get? (.kind k)) = .none :=
      List.findSome?_eq_none_iff.2 fun k' hk' => unknown_iff.1 (hkinds k' hk')
    unfold Registry.find?
    rw [hfind]
  cases hc with
  | kind heq hbefore hk =>
    have hfind := List.findSome?_eq_some_iff.2
      ⟨_, _, _, heq, known_iff.1 hk, fun k' hk' => unknown_iff.1 (hbefore k' hk')⟩
    unfold Registry.find?
    rw [hfind]
  | name hkinds hhead hk =>
    rw [hnone hkinds, hhead, Option.bind_some, known_iff.1 hk]
  | none hkinds hname =>
    rw [hnone hkinds]
    cases hhead : lineage.head? with
    | none => rfl
    | some k => exact (unknown_iff.1 (hname k hhead)).symm

theorem chosen_iff {choice : Option (Convertor α)} :
    Chosen h loaded lineage choice ↔ choice = (convertors h loaded).find? lineage := by
  refine ⟨Chosen.eq_find?, ?_⟩
  rintro rfl
  exact chosen_find? h loaded lineage

end Choice

/-! ### What a predictor depends on -/

/-- A key that a lineage is looked up under: one of its kinds, or the name of the first one. -/
def Key.Concerns (lineage : List Kind) (key : Key) : Prop :=
  (∃ k ∈ lineage, key = .kind k) ∨ ∃ k, lineage.head? = some k ∧ key = .name k.name

theorem findSome?_congr {γ δ : Type} {f g : γ → Option δ} {xs : List γ} (hfg : ∀ x ∈ xs, f x = g x) :
    xs.findSome? f = xs.findSome? g := by
  induction xs with
  | nil => rfl
  | cons x xs ih =>
    obtain ⟨hx, hxs⟩ := List.forall_mem_cons.1 hfg
    rw [List.findSome?_cons, List.findSome?_cons, hx, ih hxs]

/-- Only the keys that concern a lineage matter for it. -/
theorem find?_congr {β : Type} {r s : Registry β} {lineage : List Kind}
    (hrs : ∀ key : Key, key.Concerns lineage → r.get? key = s.get? key) : r.find? lineage = s.find? lineage := by
  have hkinds : lineage.findSome? (fun k => r.get? (.kind k)) = lineage.findSome? fun k => s.get? (.kind k) :=
    findSome?_congr fun k hk => hrs _ (.inl ⟨k, hk, rfl⟩)
  have hname : (lineage.head?.bind fun k => r.get? (.name k.name)) =
      lineage.head?.bind fun k => s.get? (.name k.name) := by
    cases hhead : lineage.head? with
    | none => rfl
    | some k => exact hrs _ (.inr ⟨k, hhead, rfl⟩)
  unfold Registry.find?
  rw [hkinds, hname]

section Networks

variable {α : Type} [Scalar α] {h h' : List (Key × Convertor α)} {loaded : List Family} {p : Predictor α}

/-- What the convertor that counts makes of a predictor; without one, the name of its kind is refused. -/
def Predictor.convertBy (p : Predictor α) (choice : Option (Convertor α)) : Except Fault (Network α) :=
  choice.elim (.error (.notRegistered p.kindName)) fun c => c p

omit [Scalar α] in
/-- The order of a predictor is its lineage, unless a kind of the lineage masks it. -/
theorem order_eq_ok_iff {kinds : List Kind} :
    p.order = .ok kinds ↔ kinds = p.lineage ∧ ∀ k ∈ p.lineage, k.masksOrder = false := by
  unfold Predictor.order
  by_cases hmask : ∃ k ∈ p.lineage, k.masksOrder = true
  · rw [if_pos (List.any_eq_true.2 hmask)]
    refine ⟨nofun, fun ⟨_, hall⟩ => ?_⟩
    obtain ⟨k, hk, hmasks⟩ := hmask
    rw [hall k hk] at hmasks
    cases hmasks
  · rw [if_neg fun hany => hmask (List.any_eq_true.1 hany)]
    constructor
    · rintro ⟨⟩
      exact ⟨rfl, fun k hk => Bool.eq_false_iff.2 fun hmasks => hmask ⟨k, hk, hmasks⟩⟩
    · rintro ⟨rfl, -⟩
      rfl

theorem network_of_order_ok {kinds : List Kind} (hp : ∀ n, p.content ≠ .network n) (ho : p.order = .ok kinds) :
    p.network (.ofHistory h) loaded = p.convertBy ((convertors h loaded).find? kinds) := by
  unfold Predictor.network Predictor.convertBy convertors
  rw [ho]
  split
  · rename_i n hn
    exact absurd hn (hp n)
  · dsimp only [bind, Except.bind]
    cases ((Registry.ofHistory h).before (Predictor.builtIn loaded)).find? kinds with
    | none => rfl
    | some c => rfl

theorem network_of_order_error {f : Fault} (hp : ∀ n, p.content ≠ .network n) (ho : p.order = .error f) :
    p.network (.ofHistory h) loaded = .error f := by
  unfold Predictor.network
  rw [ho]
  split
  · rename_i n hn
    exact absurd hn (hp n)
  · rfl

/-- Histories that agree on the keys of a predictor give the same network. -/
theorem network_congr (hh : ∀ key : Key, key.Concerns p.lineage →
      (Registry.ofHistory h).get? key = (Registry.ofHistory h').get? key) :
    p.network (.ofHistory h) loaded = p.network (.ofHistory h') loaded := by
  by_cases hp : ∀ n, p.content ≠ .network n
  · cases ho : p.order with
    | error f => rw [network_of_order_error hp ho, network_of_order_error hp ho]
    | ok kinds =>
      have hfind : (convertors h loaded).find? p.lineage = (convertors h' loaded).find? p.lineage := by
        refine find?_congr fun key hkey => ?_
        unfold convertors
        rw [Registry.get?_before, Registry.get?_before, hh key hkey]
      rw [network_of_order_ok hp ho, network_of_order_ok hp ho, (order_eq_ok_iff.1 ho).1, hfind]
  · obtain ⟨n, hn⟩ := not_forall_not.1 hp
    unfold Predictor.network
    rw [hn]

end Networks

/-! ### A small lineage -/

/-- A kind that specialises two others, which have a common one. -/
def Predictor.diamond : Predictor Rat :=
  ⟨[⟨none, "E"⟩, ⟨none, "B"⟩, ⟨none, "D"⟩, ⟨none, "A"⟩, anything], .other⟩

/-- A predictor that is itself a kind. -/
def Predictor.ofKind : Predictor Rat := ⟨[.kinds, anything], .other⟩

/-- A convertor that gives the same network for everything. -/
def Convertor.always (n : Network Rat) : Convertor Rat := fun _ => .ok n

/-- Two kinds of the lineage, one of them twice, and two names. -/
def diamondHistory : List (Key × Convertor Rat) :=
  [(.kind ⟨none, "D"⟩, fun _ => .error .wrongKind), (.name "E", fun _ => .error .wrongKind),
    (.kind ⟨none, "A"⟩, fun _ => .error .wrongKind), (.kind ⟨none, "D"⟩, .always .absolute),
    (.name "B", fun _ => .error .wrongKind)]

example : Predictor.diamond.network (.ofHistory diamondHistory) [.chains] = .ok .absolute := rfl

end ReluMilp
