import Pictograph.Analysis.Operand

/-!
# Branches, loops and returns

The body of a branch or of a loop is a block that may be skipped. Its word count stands in front of
its code. Each branch has a scope of its own, which holds the variable that its condition binds or
that its loop runs over.
-/

namespace Pictograph.Analysis

/-! ## Blocks -/

/-- Enters a block that may be skipped. The counters have to stay in their range. -/
def enterConditional (withFields : Bool) : Analysis Unit := do
  if !(← get).environment.canShift 1 withFields then
    throw .overflowed
  modifyEnvironment (·.enterConditional withFields)

/-- Analyses a block that may be skipped, `🍇 statements 🍉`, and returns the variables that got
their value in it. -/
def conditionalBlock (Γ : Setting) (rec : Recursion) : Analysis (List Slot) := do
  let withFields := !Γ.isStatic
  enterConditional withFields
  modifyFrame fun f ↦ { f with flowDepth := f.flowDepth + 1 }
  let _ ← reading (Reading.expectConstruct .blockOpen Construct.blockOpen.spelling)
  let count ← reserveCount
  statements Γ rec
  fillCount count
  let (settled, environment) := (← get).environment.leaveConditional withFields
  modifyEnvironment fun _ ↦ environment
  modifyFrame fun f ↦
    { f with hasEffect := true, flowDepth := f.flowDepth - 1, hasReturned := false }
  return settled

/-- Warns about variables that could be frozen. -/
def recommendFrozen (Γ : Setting) (candidates : List Variable) : Analysis Unit := do
  if Γ.options.recommendsFrozen then
    candidates.forM fun v ↦ warn (.couldBeFrozen v.name) v.span

/-- Runs an analysis in a scope of its own. -/
def inScope {α : Type} (Γ : Setting) (m : Analysis α) : Analysis α := do
  modifyEnvironment (·.push .empty)
  let value ← m
  if let some (left, environment) := (← get).environment.pop? then
    modifyEnvironment fun _ ↦ environment
    recommendFrozen Γ left.freezable
  return value

/-! ## Branches -/

/-- Analyses the condition of a branch. It is a truth value, or else `🍦 name value`, which holds if
the optional value is there and binds it for the branch. -/
def condition (Γ : Setting) (rec : Recursion) : Analysis Unit := do
  if ← accepts .declareFrozen then
    let (x, span) ← variableName
    requireUndeclared x span
    emit .conditionalBind
    let slot ← newSlot Γ span
    emitNumber slot
    let valueSpan ← here
    let t ← operand Γ rec
    require t.isOptional
      (.typeMismatch "condition assignment can only be used with optionals") valueSpan
    declare (Variable.ready { name := x, type := t.unwrapped, slot, span }).frozen
  else
    let _ ← operandFitting Γ rec .boolean

/-- Analyses a condition and its block. -/
def branch (Γ : Setting) (rec : Recursion) : Analysis (List Slot) :=
  inScope Γ do
    condition Γ rec
    conditionalBlock Γ rec

/-- The slots that occur in every one of the lists. -/
def inEach : List (List Slot) → List Slot
  | [] => []
  | first :: rest => first.filter fun slot ↦ rest.all (·.contains slot)

/-- Analyses a chain of branches, `🍊 condition block (🍋 condition block)* (🍓 block)?`. If the chain
has a last branch without a condition, one of its branches is taken for certain, and what each of
them gives a value to has a value. -/
def ifChain (Γ : Setting) (rec : Recursion) : Analysis Ty := do
  emit .ifChain
  let count ← reserveCount
  let first ← branch Γ rec
  let conditional ← repeatUntil (fun branches ↦ do
    if ← accepts .elseIfBranch then
      emit .elseIfBranch
      return .inl (branches ++ [← branch Γ rec])
    return .inr branches) [first]
  if ← accepts .elseBranch then
    emit .elseBranch
    let last ← inScope Γ (conditionalBlock Γ rec)
    fillCount count
    modifyEnvironment ((inEach (conditional ++ [last])).foldl Environment.settle)
  else
    fillCount count
  return .nothingness

/-! ## Loops -/

/-- Repeats a block while a condition holds, `🔁 condition block`. -/
def repeatWhile (Γ : Setting) (rec : Recursion) : Analysis Ty := do
  emit .repeatWhile
  let _ ← operandFitting Γ rec .boolean
  let _ ← inScope Γ (conditionalBlock Γ rec)
  return .nothingness

/-- The type of what a value yields when it is iterated: for a list its generic argument, and for
anything else that can be iterated the argument of the only generic parameter of its class. Nothing
is known about the elements otherwise. -/
def elementType? (Γ : Setting) (t : Ty) : Option Ty :=
  if t.objectId? = some TypeId.list then
    some (t.arguments.head?.getD .anything)
  else if Γ.catalogue.isEnumerable t then
    let single := (Γ.catalogue.classOf? t).any (·.constraints.length == 1)
    match t.arguments with
    | [element] => some (if single then element else .anything)
    | _ => some .anything
  else
    none

/-- Runs a block for each element of a value, `🔂 name value block`. Lists have an opcode of their
own, so the opcode is filled in once the type of the value is known. -/
def forIn (Γ : Setting) (rec : Recursion) (loopSpan : Span) : Analysis Ty := do
  let opcode ← reserve
  let (x, span) ← variableName
  let _ ← inScope Γ do
    let slot ← newSlot Γ span
    emitNumber slot
    let hidden ← newSlot Γ span
    emitNumber hidden
    let t ← operandFitting Γ rec .anyObject
    let element ← demand (elementType? Γ t) (.typeMismatch
      s!"{Γ.typeName t} does not conform to {Vocabulary.enumerableProtocol.text}") loopSpan
    fillOpcode opcode (.forIn (t.objectId? == some TypeId.list))
    declare (Variable.ready { name := x, type := element, slot, span }).frozen
    conditionalBlock Γ rec
  return .nothingness

/-! ## Returns -/

/-- Returns a value, `🍎 value`. It is a statement: inside an expression, where something has
happened before it, it is refused. An initializer that may fail can return nothingness. -/
def returnValue (Γ : Setting) (rec : Recursion) (span : Span) : Analysis Ty := do
  require (!(← frame).hasEffect)
    (.invalidReturn "return value cannot be used as an argument") span
  modifyFrame ({ · with hasEffect := true })
  match Γ.initializer? with
  | some initializer =>
    require initializer.mayFail
      (.invalidReturn "return cannot be used inside an initializer") span
    emit .returning
    let _ ← operandFitting Γ rec .nothingness
  | none =>
    require (!Γ.result.isNothingness)
      (.invalidReturn "return may not be used inside a void procedure") span
    emit .returning
    let _ ← operandFitting Γ rec Γ.result
    modifyFrame ({ · with hasReturned := true })
  return .nothingness

end Pictograph.Analysis
