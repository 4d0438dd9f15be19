import ReluMilp.Predictor.Arguments

/-!
# Checks of steps

Arguments of steps that have to suit each other, kind by kind. The arguments of a step come as a
list; one that is not given has a default.

* `Arguments` — the arguments of a step;
* `Arguments.each` — a check per argument;
* the checks of normalisations, convolutions, recurrent steps, attention, tables of vectors, and of
  some single kinds.
-/

namespace ReluMilp

/-- The arguments of a step, in order. -/
abbrev Arguments := List Value

/-- A check of arguments. -/
abbrev ArgumentsCheck := Arguments → Except Fault Unit

namespace Arguments

/-- The argument at a position, or a default. -/
def get (as : Arguments) (k : Nat) (absent : Value) : Value := as.getD k absent

/-- The argument at a position, or nothing. -/
def get? (as : Arguments) (k : Nat) : Value := as.getD k .null

/-- A check per argument. -/
def each (checks : List (Value → Except Fault Unit)) : ArgumentsCheck := fun as =>
  (checks.zip as).forM fun (check, a) => check a

/-- Where arrays are stored, from a position on: a place and a format. -/
def checkPlace (as : Arguments) (k : Nat) : Except Fault Unit := do
  Argument.device (as.get? k)
  Argument.nothing (as.get? (k + 1))

/-! ### Normalisation -/

/-- A normalisation with a scale if one argument counts as true, and with sums of what it has seen if
the next one does; both hold by default or both do not. -/
def checkNormalization (learned : Bool) (place : Nat) : ArgumentsCheck := fun as => do
  if (as.get 3 (.bool learned)).truth || (as.get 4 (.bool learned)).truth then
    Argument.sizes (as.get? 0)
    checkPlace as place

/-- The shape that a normalisation runs over: one whole number or a list of dimensions. -/
def checkNormalizedShape (scaled : Nat) : ArgumentsCheck := fun as => do
  let items ← match as.get? 0 with
    | .bool b => pure [Value.int (if b then 1 else 0)]
    | .int n => pure [Value.int n]
    | v => v.items?.elim (.error .wrongKind) .ok
  if (as.get scaled (.bool true)).truth then
    let _ ← Argument.sizesOf items

/-- Groups of channels that a normalisation runs over. -/
def checkGroups : ArgumentsCheck := fun as => do
  if !(← (as.get? 0).divides (as.get? 1)) then throw .wrongValue
  if (as.get 3 (.bool true)).truth then
    Argument.sizes (as.get? 1)
    checkPlace as 4

/-! ### Convolutions -/

/-- The arguments of a convolution over `rank` dimensions. -/
structure Convolution where
  rank : Nat
  inputs : Value
  outputs : Value
  kernel : Value
  stride : Value
  padding : Value
  groups : Value
  filling : Value

namespace Convolution

/-- Channels come in groups of one size. -/
def checkChannels (c : Convolution) : Except Fault Unit := do
  Argument.positive c.groups
  if !(← c.groups.divides c.inputs) then throw .wrongValue
  if !(← c.groups.divides c.outputs) then throw .wrongValue

/-- A border has a size, or a name that asks for steps of one or nothing. -/
def checkPadding (c : Convolution) : Except Fault Unit :=
  match c.padding with
  | .text "valid" => .ok ()
  | .text "same" =>
    if (c.stride.repeated c.rank).all fun s => s.number? = some 1 then .ok () else .error .wrongValue
  | .text _ => .error .wrongValue
  | _ => .ok ()

/-- The ways to fill a border. -/
def checkFilling (c : Convolution) : Except Fault Unit :=
  match c.filling with
  | .text s =>
    if ["zeros", "reflect", "replicate", "circular"].contains s then .ok () else .error .wrongValue
  | .list _ => .error .wrongKind
  | .record _ => .error .wrongKind
  | _ => .error .wrongValue

/-- A convolution with weights that can be made. -/
def check (c : Convolution) : Except Fault Unit := do
  c.checkChannels
  c.checkPadding
  c.checkFilling
  let _ ← Argument.sizesOf (c.outputs :: c.inputs :: c.kernel.repeated c.rank)

end Convolution

/-- The arguments with channels in front that are left open. -/
def withChannels (isOpen : Bool) (as : Arguments) : Arguments :=
  if isOpen then .int 0 :: .int 0 :: as.drop 1 else as

/-- A convolution whose channels are given, or left open at the start. -/
def checkConvolution (isOpen : Bool) (rank : Nat) : ArgumentsCheck := fun given => do
  let as := withChannels isOpen given
  let c : Convolution :=
    { rank := rank
      inputs := as.get? 0
      outputs := as.get? 1
      kernel := as.get? 2
      stride := as.get 3 (.int 1)
      padding := as.get 4 (.int 0)
      groups := as.get 6 (.int 1)
      filling := as.get 8 (.text "zeros") }
  c.check
  checkPlace as 9

/-- A transposed convolution; its border is filled with zeros. -/
def checkTransposed (isOpen : Bool) (rank : Nat) : ArgumentsCheck := fun given => do
  let as := withChannels isOpen given
  if !(as.get 9 (.text "zeros")).isText "zeros" then throw .wrongValue
  let c : Convolution :=
    { rank := rank
      inputs := as.get? 0
      outputs := as.get? 1
      kernel := as.get? 2
      stride := .int 1
      padding := .int 0
      groups := as.get 6 (.int 1)
      filling := .text "zeros" }
  c.check
  checkPlace as 10

/-! ### Recurrent steps -/

/-- A recurrent step: a rate is asked for first, then a width, a depth and the width of what comes
out. -/
def checkRecurrent : ArgumentsCheck := fun as => do
  match as.get 5 (.real 0) with
  | .int n => if n < 0 || 1 < n then throw .wrongValue
  | .real x => if !(0 ≤ x && x ≤ 1) then throw .wrongValue
  | _ => throw .wrongValue
  let width ← (as.get? 1).index?.elim (.error .wrongKind) .ok
  if width ≤ 0 then throw .wrongValue
  Argument.positive (as.get 2 (.int 1))
  let out := as.get 7 (.int 0)
  if ← out.isNegative then throw .wrongValue
  if (out.number?.getD 0) ≥ width then throw .wrongValue
  let _ ← Argument.size (as.get 2 (.int 1))
  let _ ← Argument.size (as.get? 0)
  checkPlace as 8

/-- A plain recurrent step, which also has the name of an activation. -/
def checkPlainRecurrent : ArgumentsCheck := fun as => do
  let name := as.get 3 (.text "tanh")
  if !(name.isText "tanh" || name.isText "relu") then throw .wrongValue
  if as.length < 2 then throw .wrongKind
  checkRecurrent (as.take 3 ++ as.drop 4)

/-- A recurrent step after the name of its kind. -/
def checkNamedRecurrent : ArgumentsCheck := fun as => do
  checkRecurrent (as.drop 1)
  match as.get? 0 with
  | .text s =>
    if s ∉ ["LSTM", "GRU", "RNN_TANH", "RNN_RELU"] then throw .wrongValue
  | _ => throw .wrongKind

/-- One step of a recurrence, with arrays placed from a position on. -/
def checkCell (place : Nat) : ArgumentsCheck := fun as => do
  let width ← (as.get? 1).index?.elim (.error .wrongKind) .ok
  let _ ← Argument.size (.int width)
  let _ ← Argument.size (as.get? 0)
  checkPlace as place

/-- One step of a recurrence with this many parts. -/
def checkCellOf : ArgumentsCheck := fun as => do
  let parts ← (as.get? 3).index?.elim (.error .wrongKind) .ok
  let width ← (as.get? 1).index?.elim (.error .wrongKind) .ok
  let _ ← Argument.size (.int (parts * width))
  let _ ← Argument.size (as.get? 0)
  checkPlace as 4

/-! ### Attention -/

/-- Heads that share a width evenly. -/
def checkHeads (width heads : Value) : Except Fault Unit := do
  if (← width.atMost 0) || (← heads.atMost 0) then throw .wrongValue
  if !(← heads.divides width) then throw .violated
  let _ ← Argument.sizesOf [width, width]

/-- Attention, with widths of keys and of values. -/
def checkAttention : ArgumentsCheck := fun as => do
  checkHeads (as.get? 0) (as.get? 1)
  for k in [6, 7] do
    if !(as.get? k).isNull then
      let _ ← Argument.size (as.get? k)
  checkPlace as 9

/-- The rest of a block with attention: a width, a rate and the name of an activation. -/
def checkBlock (width rate activation : Value) : Except Fault Unit := do
  let _ ← Argument.size width
  Argument.rate rate
  match activation with
  | .text s => if s ≠ "relu" ∧ s ≠ "gelu" then throw .misfit
  | _ => pure ()

/-- A block with attention. -/
def checkAttentionBlock : ArgumentsCheck := fun as => do
  checkHeads (as.get? 0) (as.get? 1)
  checkBlock (as.get 2 (.int 2048)) (as.get 3 (.real 0.1)) (as.get 4 (.text "relu"))

/-- Two stacks of blocks with attention. -/
def checkTransformer : ArgumentsCheck := fun as => do
  checkHeads (as.get 0 (.int 512)) (as.get 1 (.int 8))
  checkBlock (as.get 4 (.int 2048)) (as.get 5 (.real 0.1)) (as.get 6 (.text "relu"))
  if (as.get 2 (.int 6)).index?.isNone || (as.get 3 (.int 6)).index?.isNone then throw .wrongKind

/-- Copies of a block: of nothing, or none at all. -/
def checkCopies : ArgumentsCheck := fun as => do
  let n ← (as.get? 1).index?.elim (.error .wrongKind) .ok
  if 0 < n then Argument.nothing (as.get? 0)

/-! ### Tables of vectors -/

/-- A table of vectors. One of its rows may be marked, and no table may be given. -/
def checkTable (marked given place : Nat) : ArgumentsCheck := fun as => do
  let rows := as.get? 0
  match as.get? marked with
  | .null => pure ()
  | v =>
    match v.number?, rows.number? with
    | some k, some n => if k ≥ n || k < -n then throw .violated
    | some k, none => if k ≠ 0 then throw .wrongKind
    | none, _ => throw .wrongKind
  if !(as.get? given).isNull then throw .missingMember
  let _ ← Argument.sizesOf [rows, as.get? 1]
  checkPlace as place

/-! ### Single kinds -/

/-- A lower and an upper value, of which the upper one is larger; older names go before. -/
def checkRange : ArgumentsCheck := fun as => do
  let side (older current : Nat) (absent : Value) : Value :=
    if (as.get? older).isNull then as.get current absent else as.get? older
  match side 3 0 (.int (-1)), side 4 1 (.int 1) with
  | .text a, .text b => if !decide (a < b) then throw .violated
  | low, high =>
    match low.number?, high.number? with
    | some a, some b => if b ≤ a then throw .violated
    | _, _ => throw .wrongKind

/-- A dimension and the list of the dimensions that it becomes. -/
def checkUnfolding : ArgumentsCheck := fun as =>
  match (as.get? 0).index?, as.get? 1 with
  | some _, .list vs => if vs.all fun v => v.index?.isSome then .ok () else .error .wrongKind
  | _, _ => .error .wrongKind

/-- A pooling by a size or by a ratio over `rank` dimensions, but not by both. -/
def checkFractional (rank : Nat) : ArgumentsCheck := fun as => do
  Argument.nothing (as.get? 4)
  match as.get? 1, as.get? 2 with
  | .null, .null => throw .wrongValue
  | .null, ratio =>
    let ratios := ratio.repeated rank
    for k in List.range rank do
      match ratios[k]? with
      | none => throw .outOfRange
      | some r =>
        if (← r.atMost 0) then throw .wrongValue
        if (← r.atLeast 1) then throw .wrongValue
  | _, .null => pure ()
  | _, _ => throw .wrongValue

/-- A product of two inputs. -/
def checkBilinear : ArgumentsCheck := fun as => do
  let ns ← Argument.sizesOf [as.get? 2, as.get? 0, as.get? 1]
  if ns[1]? = some 0 then throw .divisionByZero
  checkPlace as 4

/-- Rising bounds of groups of classes. -/
def checkCutoffs : ArgumentsCheck := fun as => do
  let items ← (as.get? 2).items?.elim (.error .wrongKind) .ok
  if items.isEmpty then throw .wrongValue
  let cs ← items.mapM fun c => c.number?.elim (.error .wrongKind) .ok
  let classes ← (as.get? 1).number?.elim (.error .wrongKind) .ok
  let rising := (cs.zip (cs.drop 1)).all fun (a, b) => a < b
  if !rising || cs.any fun c => c ≤ 0 || classes - 1 < c || c.den ≠ 1 then throw .wrongValue
  let _ ← Argument.size (as.get? 0)

end Arguments

end ReluMilp
