import Pictograph.Analysis.Operand

/-!
# Reading and writing variables

A declaration without a value only hands out a slot. Every construct that gives a value to a
variable writes the store before the value, and counts the variable as ready after the value: the
value may not refer to a variable it is about to introduce.
-/

namespace Pictograph.Analysis

/-- A variable as a value. -/
def readVariable (x : String) (span : Span) : Analysis Ty := do
  let (storage, v) ← demand (← resolve? x) (.unresolvedVariable x) span
  lift (v.requireReady span)
  emitAccess storage .load v.slot
  return v.type

/-- Declares a variable, `🍰 name type`. An optional one is nothingness at first and may be read at
once. -/
def declareVariable (Γ : Setting) : Analysis Ty := do
  let (x, span) ← variableName
  requireUndeclared x span
  let (type, _) ← annotation Γ Γ.dynamism
  let slot ← newSlot Γ span
  let v : Variable := { name := x, type, slot, span }
  declare (if type.isOptional then v.ready else v)
  return .nothingness

/-- Writes a store to a new slot with its value, and returns the variable that has it. -/
def storeNew (Γ : Setting) (rec : Recursion) (x : String) (span : Span) :
    Analysis Variable := do
  emit (.access .frame .store)
  let slot ← newSlot Γ span
  emitNumber slot
  let type ← operand Γ rec
  return Variable.ready { name := x, type, slot, span }

/-- Assigns to a variable, `🍮 name value`, and declares it if it is unknown. -/
def assign (Γ : Setting) (rec : Recursion) : Analysis Ty := do
  let (x, span) ← variableName
  match ← resolve? x with
  | none => declare (← storeNew Γ rec x span)
  | some (storage, v) =>
    let mutated ← lift (v.mutate span)
    modifyEnvironment (·.update x fun _ ↦ mutated)
    emitAccess storage .store v.slot
    let _ ← operandFitting Γ rec v.type
    modifyEnvironment (·.update x Variable.settle)
  return .nothingness

/-- Declares a variable that keeps its value, `🍦 name value`. -/
def declareFrozen (Γ : Setting) (rec : Recursion) : Analysis Ty := do
  let (x, span) ← variableName
  requireUndeclared x span
  declare (← storeNew Γ rec x span).frozen
  return .nothingness

/-- Increments or decrements an integer variable, `🍫 name` and `🍳 name`. -/
def stepVariable (Γ : Setting) (construct : Construct) (action : Access) : Analysis Ty := do
  let (x, span) ← variableName
  let (storage, v) ← demand (← resolve? x) (.unresolvedVariable x) span
  lift (v.requireReady span)
  require (Γ.catalogue.fits v.type .integer) (.typeMismatch
    s!"{construct.spelling.text} can only operate on {Γ.typeName .integer}") span
  let mutated ← lift (v.mutate span)
  modifyEnvironment (·.update x fun _ ↦ mutated)
  emitAccess storage action v.slot
  return .nothingness

end Pictograph.Analysis
