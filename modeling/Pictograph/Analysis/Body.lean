import Pictograph.Analysis.Flow

/-!
# Bodies and closures

A body runs in a frame of slots. Its arguments come first. In a closure the slots of the enclosing
frame follow, each at its enclosing number counted from behind the arguments, and the closure's own
variables come last. The closure sees copies of the variables in the slots it took over; the fields
of the object it shares with the body around it.
-/

namespace Pictograph

/-- What there is to know about a body once it was analysed. -/
structure Summary where
  /-- How many slots its frame has. -/
  slotCount : Nat
  /-- Whether it refers to the instance. -/
  usesSelf : Bool
deriving DecidableEq

namespace Analysis

/-! ## Entering a body -/

/-- Declares an argument in the next slot. -/
def declareArgument (Γ : Setting) (span : Span) (a : Argument) : Analysis Unit := do
  let slot ← newSlot Γ span
  declare (Variable.ready { name := a.name, type := a.type, slot, span }).frozen

/-- Declares the copy of a variable of the enclosing frame, whose slots start at `first`. An
argument of the same name hides it. -/
def declareCaptured (Γ : Setting) (span : Span) (first : Nat) (v : Variable) : Analysis Unit := do
  if !(← get).environment.current.contains v.name then
    let slot := first + v.slot
    requireSlot Γ slot span
    declare { v with slot }

/-- Takes over an enclosing frame of `outerSlots` slots with the given visible variables, behind the
slots handed out so far. Returns the first of the slots taken over. -/
def takeOver (Γ : Setting) (span : Span) (captured : List Variable) (outerSlots : Nat) :
    Analysis Nat := do
  let first := (← frame).slotCount
  if 0 < outerSlots then
    captured.forM (declareCaptured Γ span first)
    modifyFrame ({ · with slotCount := first + outerSlots })
  return first

/-! ## The statements of a body -/

/-- Reads the rest of a body without analysing it, and returns the place of its end. -/
def skipBody : Analysis Span :=
  repeatUntil (fun depth ↦ do
    let token ← next
    if token.asksFor .blockOpen then
      return .inl (depth + 1)
    if token.asksFor .blockClose then
      return if depth = 0 then .inr token.span else .inl (depth - 1)
    return .inl depth) 0

/-- The first statement after an unconditional return, if there is one next. -/
def deadStatement? : Analysis (Option Token) := do
  if (← frame).hasReturned then
    return (← get).cursor.peek.filter fun token ↦ !token.asksFor .blockClose
  return none

/-- Analyses the statements of a body up to its end, and returns the place of the end. Statements
after an unconditional return are reported once, and left out unless they are wanted. -/
def bodyStatements (Γ : Setting) (rec : Recursion) : Analysis Span :=
  repeatUntil (fun reported ↦ do
    let token ← next
    if token.asksFor .blockClose then
      return .inr token.span
    statement Γ rec token
    if reported then
      return .inl true
    match ← deadStatement? with
    | none => return .inl false
    | some dead =>
      warn .deadCode dead.span
      if Γ.options.compilesDeadCode then
        return .inl true
      return .inr (← skipBody)) false

/-! ## Leaving a body -/

/-- Checks that a body may end here, and recommends to freeze variables of its own. -/
def leaveBody (Γ : Setting) (firstTaken outerSlots : Nat) (span : Span) : Analysis Summary := do
  let isOwn (v : Variable) : Bool := v.slot < firstTaken || firstTaken + outerSlots ≤ v.slot
  recommendFrozen Γ ((← get).environment.current.freezable.filter isOwn)
  require (Γ.result.isNothingness || (← frame).hasReturned) .missingReturn span
  requireComplete Γ span
  require (Γ.initializer?.isNone || !Γ.hasSuperclass || (← frame).calledSuper)
    .missingSuperInitializer span
  let f ← frame
  return ⟨f.slotCount, f.usesSelf⟩

/-- Analyses a body up to and including its end. -/
def body (Γ : Setting) (rec : Recursion) (arguments : List Argument) (captured : List Variable)
    (outerSlots : Nat) : Analysis Summary := do
  let span ← here
  arguments.forM (declareArgument Γ span)
  let first ← takeOver Γ span captured outerSlots
  let ending ← bodyStatements Γ rec
  leaveBody Γ first outerSlots ending

/-! ## Closures -/

/-- Reads the arguments of a closure. -/
def closureArguments (Γ : Setting) : Analysis (List Argument) :=
  repeatUntil (fun arguments ↦ do
    match ← reading Reading.acceptReference with
    | none => return .inr arguments
    | some x =>
      let (type, _) ← annotation Γ Γ.dynamism
      return .inl (arguments ++ [⟨x, type⟩])) []

/-- Reads the return type of a closure. Without one the closure returns nothing. -/
def closureResult (Γ : Setting) : Analysis Ty := do
  if (← reading (Reading.acceptSymbol Vocabulary.returnArrow)).isSome then
    return (← annotation Γ Γ.dynamism).1
  return .nothingness

/-- Runs an analysis in a frame and with local scopes of its own. -/
def inFrame {α : Type} (m : Analysis α) : Analysis α := do
  let outer ← get
  set { outer with environment := .start outer.environment.fields, frame := {} }
  let value ← m
  modify fun inner ↦ { inner with
    environment := { outer.environment with fields := inner.environment.fields }
    frame := outer.frame }
  return value

/-- The bit of the argument count word that says that a closure uses the instance. -/
def selfFlag : UInt32 := 0x10000

/-- Analyses a closure, `🍇 (name type)* [➡ type] statements 🍉`. -/
def closure (Γ : Setting) (rec : Recursion) : Analysis Ty := do
  let arguments ← closureArguments Γ
  let result ← closureResult Γ
  emit .closure
  let slots ← reserve
  let count ← reserveCount
  let captured := (← get).environment.visible
  let outerSlots := (← frame).slotCount
  let own := { Γ with result, initializer? := none, options := Γ.options.withDeadCode true }
  let summary ← inFrame (body own rec arguments captured outerSlots)
  fillCount count
  let argumentCount := UInt32.ofNat arguments.length
  if summary.usesSelf then
    useSelf
    emitWord (argumentCount ||| selfFlag)
  else
    emitWord argumentCount
  emitNumber outerSlots
  fill slots (UInt32.ofNat summary.slotCount)
  return .callable result (arguments.map (·.type))

end Analysis

end Pictograph
