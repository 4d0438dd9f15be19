import ReluMilp.Predictor.LayerStack
import ReluMilp.Predictor.Regressor
import ReluMilp.Predictor.StepChain

/-!
# Registry of convertors

Predictors of any kind are turned into networks by a convertor found for their kind.

* `Kind` — a kind of predictors; a predictor has its own kind and those that it specialises;
* `Predictor.order` — the kinds in the order in which they are asked for a convertor; the kind of a predictor
  that is itself a kind does not tell it;
* `Registry` — convertors under keys, each a kind or a name, the latest registration of a key
  counts;
* `Registry.find?` — the convertor of a lineage: the first kind that has one, then the name of the
  first kind;
* `Predictor.network` — a network as it is, every other predictor through its convertor. Convertors
  that a caller registers go before those of the families that are loaded.
-/

namespace ReluMilp

/-- The families of predictors that have convertors of their own. -/
inductive Family where
  | regressors
  | chains
  | stacks
  deriving Repr, DecidableEq

/-- Where a kind comes from: a family, or a place in the code of a caller. A kind of a caller may have a member
for its instances under the name `mro`, by which every kind is asked for the kinds that it specialises. -/
inductive Origin where
  | family (f : Family)
  | place (path : String)
  | masking (path : String)
  deriving Repr, DecidableEq

/-- A kind of predictors: its name, and where it comes from, unless it stands in the main program. Kinds
of one name and different origins are different. -/
structure Kind where
  origin : Option Origin
  name : String
  deriving Repr, DecidableEq

/-- The kind of kinds: a predictor that is itself a kind is of this one. -/
def Kind.kinds : Kind := ⟨none, "type"⟩

/-- Whether kinds that specialise this one cannot be asked for their order: the question meets a member that is
meant for instances. The members of the kind of kinds are meant for kinds as its instances. -/
def Kind.masksOrder (k : Kind) : Bool :=
  match k.origin with
  | some (.masking _) => true
  | _ => decide (k = kinds)

/-- What a convertor is registered under. -/
inductive Key where
  | kind (k : Kind)
  | name (s : String)
  deriving Repr, DecidableEq

/-- Convertors under keys, the one registered last in front. -/
structure Registry (β : Type) where
  entries : List (Key × β)

namespace Registry

variable {β : Type}

/-- No convertor. -/
def empty : Registry β := ⟨[]⟩

/-- The convertor under a key. -/
def get? (r : Registry β) (key : Key) : Option β := (r.entries.find? fun e => e.1 = key).map (·.2)

/-- A convertor registered under a key, in place of the one that is there. -/
def register (r : Registry β) (key : Key) (convertor : β) : Registry β :=
  ⟨(key, convertor) :: r.entries.filter fun e => e.1 ≠ key⟩

/-- How many keys have a convertor. -/
def size (r : Registry β) : Nat := r.entries.length

/-- A registry with every convertor replaced by what a function makes of it. -/
def map {γ : Type} (f : β → γ) (r : Registry β) : Registry γ :=
  ⟨r.entries.map fun (key, c) => (key, f c)⟩

/-- The entries of one registry before those of another. -/
def before (r s : Registry β) : Registry β := ⟨r.entries ++ s.entries⟩

/-- The convertor of the first kind of a lineage that has one, else the one under the name of the
first kind. -/
def find? (r : Registry β) (lineage : List Kind) : Option β :=
  match lineage.findSome? fun k => r.get? (.kind k) with
  | some c => some c
  | none => lineage.head?.bind fun k => r.get? (.name k.name)

@[simp] theorem get?_register_self (r : Registry β) (key : Key) (c : β) :
    (r.register key c).get? key = some c := by
  simp [register, get?]

theorem get?_register_of_ne (r : Registry β) {key other : Key} (c : β) (h : other ≠ key) :
    (r.register key c).get? other = r.get? other := by
  have hne : ¬ key = other := fun e => h e.symm
  have hp : ∀ e : Key × β,
      (!decide (e.1 = key) && decide (e.1 = other)) = decide (e.1 = other) := by
    intro e
    by_cases he : e.1 = other
    · simp [he, h]
    · simp [he]
  simp [register, get?, hne, List.find?_filter, hp]

end Registry

/-! ### Predictors -/

/-- What a predictor holds. -/
inductive Content (α : Type) where
  | network (n : Network α)
  | regressor (r : Regressor α)
  | chain (c : StepChain α)
  | stack (s : LayerStack α)
  /-- Nothing that this library can read. -/
  | other

/-- A predictor: its lineage, its own kind first, and what it holds. -/
structure Predictor (α : Type) where
  lineage : List Kind
  content : Content α

/-- A function from predictors to networks. -/
abbrev Convertor (α : Type) := Predictor α → Except Fault (Network α)

namespace Predictor

variable {α : Type} [Scalar α]

/-- The convertor of a family, under a given name; it does not take other predictors. -/
def convertAs (f : Family) (p : Predictor α) (name : Value) : Except Fault (Network α) :=
  match f, p.content with
  | .regressors, .regressor r => r.network name
  | .chains, .chain c => c.network name
  | .stacks, .stack s => s.network name
  | _, _ => .error .wrongKind

/-- The key under which the convertor of a family stands. Regressors are known by name. -/
def familyKey : Family → Key
  | .regressors => .name "MLPRegressor"
  | .chains => .kind ⟨some (.family .chains), "Sequential"⟩
  | .stacks => .kind ⟨some (.family .stacks), "Sequential"⟩

/-- The convertors of families. -/
def builtIn (loaded : List Family) : Registry (Convertor α) :=
  ⟨loaded.map fun f => (familyKey f, fun p => p.convertAs f .null)⟩

/-- The name of the kind of a predictor. -/
def kindName (p : Predictor α) : String := (p.lineage.head?.map (·.name)).getD ""

/-- The kinds of a predictor as its own kind tells them, the own kind first. -/
def order (p : Predictor α) : Except Fault (List Kind) :=
  if p.lineage.any Kind.masksOrder then .error .wrongKind else .ok p.lineage

/-- The network of a predictor. -/
def network (registered : Registry (Convertor α)) (loaded : List Family) (p : Predictor α) :
    Except Fault (Network α) :=
  match p.content with
  | .network n => .ok n
  | _ => do
    match (registered.before (builtIn loaded)).find? (← p.order) with
    | some c => c p
    | none => .error (.notRegistered p.kindName)

/-- The most general kind. -/
def anything : Kind := ⟨none, "object"⟩

/-- The lineage of a value. -/
def lineageOf : Value → List Kind
  | .bool _ => [⟨none, "bool"⟩, ⟨none, "int"⟩, anything]
  | v => [⟨none, v.kindName⟩, anything]

/-- A value as a predictor that nothing is known of. -/
def ofValue (v : Value) : Predictor α := ⟨lineageOf v, .other⟩

/-- A regressor as a predictor. -/
def ofRegressor (r : Regressor α) : Predictor α :=
  ⟨[⟨some (.family .regressors), r.kind⟩, anything], .regressor r⟩

/-- A chain as a predictor; every chain specialises the kind of its family. -/
def ofChain (c : StepChain α) : Predictor α :=
  ⟨[⟨some (.family .chains), c.kind⟩, ⟨some (.family .chains), "Sequential"⟩, anything], .chain c⟩

/-- A stack as a predictor; every stack specialises the kind of its family. -/
def ofStack (s : LayerStack α) : Predictor α :=
  ⟨[⟨some (.family .stacks), s.kind⟩, ⟨some (.family .stacks), "Sequential"⟩, anything], .stack s⟩

end Predictor

end ReluMilp
