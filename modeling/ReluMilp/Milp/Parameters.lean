import ReluMilp.Fault
import ReluMilp.Scalar

/-!
# Parameters of an optimisation model

What governs the solves of a model: its output, its threads and its time limit. An infinite time limit
is none, and a limit is cut like every number of a model.

A parameter is set or refused by itself; what was set before a refusal stays set.
-/

namespace ReluMilp

/-- The parameters in force. -/
structure Parameters where
  output : Bool
  threads : Nat
  timeLimit : Float

namespace Parameters

/-- A silent model that chooses its threads and has no time limit. -/
def default : Parameters := ⟨false, 0, 1 / 0⟩

/-- The largest number of threads that a model takes. -/
def maxThreads : Nat := 1024

/-- Numbers of threads from this one on are out of range altogether. -/
def threadRange : Nat := Nat.pow 2 31

/-- A time limit below a microsecond is over before any solution is found. -/
def expired (p : Parameters) : Bool := p.timeLimit < 1e-6

/-- Setting one parameter. -/
inductive Change where
  | output (on : Bool)
  | threads (n : Nat)
  | timeLimit (seconds : Float)

/-- The parameters after one change. -/
def set (p : Parameters) : Change → Except Fault Parameters
  | .output on => .ok { p with output := on }
  | .threads n =>
    if n ≤ maxThreads then .ok { p with threads := n }
    else .error (if n < threadRange then .refused else .overflow)
  | .timeLimit s => .ok { p with timeLimit := Scalar.clip s }

/-- Changes in order, up to the first that is refused: the parameters reached, and the refusal. -/
def setAll (p : Parameters) : List Change → Parameters × Option Fault
  | [] => (p, none)
  | c :: cs =>
    match p.set c with
    | .ok q => setAll q cs
    | .error e => (p, some e)

end Parameters

end ReluMilp
