import Pictograph.Diagnostic
import Pictograph.Slot
import Pictograph.Ty.Basic

/-!
# Variables

What the analysis knows about a variable. Whether it has a value on every path is a counter rather
than a flag. Entering a conditional block raises the counters of the variables that have a value,
leaving it lowers them again; so inside the block a counter of one says that the variable got its
value inside this very block, and that value does not outlive it.
-/

namespace Pictograph

/-- A declared variable. -/
structure Variable where
  /-- The name. -/
  name : String
  /-- The declared type. -/
  type : Ty
  /-- The number of its slot, in the frame or in the object. -/
  slot : Nat
  /-- Positive while the variable has a value on every path that leads here. -/
  readiness : Int := 0
  /-- Whether the variable keeps its first value. -/
  isFrozen : Bool := false
  /-- Whether the variable was written after its declaration. -/
  isMutated : Bool := false
  /-- Where it was declared. -/
  span : Span
deriving DecidableEq

namespace Variable

/-- Whether the variable may be read. -/
def isReady (v : Variable) : Bool := 0 < v.readiness

/-- The variable with a value. -/
def ready (v : Variable) : Variable := { v with readiness := 1 }

/-- The variable, frozen. -/
def frozen (v : Variable) : Variable := { v with isFrozen := true }

/-- Refuses to read a variable that may be without a value. -/
def requireReady (v : Variable) (span : Span) : Except Fault Unit :=
  if v.isReady then .ok () else .error ((Cause.uninitializedVariable v.name).at span)

/-- Refuses to write a frozen variable, and notes the writing of any other. -/
def mutate (v : Variable) (span : Span) : Except Fault Variable :=
  if v.isFrozen then
    .error ((Cause.frozenMutation v.name).at span)
  else
    .ok { v with isMutated := true }

/-- The variable after it was given a value. A counter that is positive already stays. -/
def settle (v : Variable) : Variable :=
  if v.readiness ≤ 0 then v.ready else v

/-- The variable with its counter shifted, unless it has no value: a block boundary never makes a
variable readable. -/
def shift (delta : Int) (v : Variable) : Variable :=
  if 0 < v.readiness then { v with readiness := v.readiness + delta } else v

/-- The range of the counters, which are stored in 32 bits. -/
def counterLimit : Int := 0x80000000

/-- Whether shifting the counter keeps it in its range. -/
def canShift (delta : Int) (v : Variable) : Bool :=
  let shifted := (v.shift delta).readiness
  decide (-counterLimit ≤ shifted ∧ shifted < counterLimit)

end Variable

end Pictograph
