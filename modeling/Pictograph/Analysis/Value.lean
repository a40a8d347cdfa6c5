import Pictograph.Analysis.Operand
import Pictograph.Catalogue.Members

/-!
# Values

Expressions that denote a value without a call: literals, the instance, the values of enumerations,
and the two tests that every value admits.
-/

namespace Pictograph.Analysis

/-! ## Literals -/

/-- Writes a string literal. -/
def stringLiteral (content : String) : Analysis Ty := do
  let index ← intern content
  emit .string
  emitNumber index
  return .string

/-- Writes a truth value. -/
def booleanLiteral (value : Bool) : Analysis Ty := do
  emit (.boolean value)
  return .boolean

/-- Whether an integer takes two words: whether its magnitude exceeds the 31 bits of one. -/
def isWide (value : Int64) : Bool :=
  0x7FFFFFFF < value.toInt.natAbs

/-- Writes an integer, in the short form if possible. -/
def integerLiteral (value : Int64) : Analysis Ty := do
  if isWide value then
    emit .wideInteger
    emitWide value.toUInt64
  else
    emit .integer
    emitWord value.toInt32.toUInt32
  return .integer

/-- Writes a floating point number. -/
def doubleLiteral (bits : UInt64) : Analysis Ty := do
  emit .double
  emitWide bits
  return .double

/-- Writes a symbol. -/
def symbolLiteral (value : Symbol) : Analysis Ty := do
  emit .symbol
  emitWord value.code
  return .symbol

/-- Writes nothingness. -/
def nothingnessLiteral : Analysis Ty := do
  emit .nothingness
  return .nothingness

/-! ## The instance -/

/-- The instance, `🐕`. An initializer of a subclass may hand it out only after its superclass was
initialized, and every initializer only once all fields have a value. -/
def selfReference (Γ : Setting) (span : Span) : Analysis Ty := do
  let spelling := Construct.selfReference.spelling.text
  require (!Γ.isStatic) (.invalidOperation s!"illegal use of {spelling}") span
  let early := Γ.initializer?.isSome && Γ.hasSuperclass && !(← frame).calledSuper
  require (!early)
    (.invalidOperation s!"attempt to use {spelling} before superinitializer call") span
  requireComplete Γ span
  useSelf
  emit .selfReference
  return Γ.selfType

/-! ## Enumerations -/

/-- Fills in and writes the load of an enumeration value: one word if its number fits, else two. -/
def emitEnumNumber (opcode : Hole) (number : UInt64) : Analysis Unit := do
  if number < 0x100000000 then
    fillOpcode opcode .integer
    emitWord number.toUInt32
  else
    fillOpcode opcode .wideInteger
    emitWide number

/-- A value of an enumeration, `🔺 type value`. -/
def enumValue (Γ : Setting) (span : Span) : Analysis Ty := do
  let opcode ← reserve
  let (t, _) ← annotation Γ Γ.dynamism
  let isEnumeration := match t.kind with
    | .enumeration _ => true
    | _ => false
  require isEnumeration (.typeMismatch s!"{Γ.typeName t} is not an enum") span
  require (!t.isOptional) (.typeMismatch "optionals cannot be accessed") span
  let (value, valueSpan) ← name
  let number ← demand (Γ.catalogue.enumValue? t value)
    (.unknownEnumValue (Γ.typeName t) value.text) valueSpan
  emitEnumNumber opcode number
  return t

/-! ## Tests -/

/-- The test for nothingness, `☁ value`. -/
def isNothingness (Γ : Setting) (rec : Recursion) : Analysis Ty := do
  emit .isNothingness
  let _ ← operand Γ rec
  return .boolean

/-- The comparison of two instances, `😜 value value`. -/
def identical (Γ : Setting) (rec : Recursion) : Analysis Ty := do
  emit .identical
  let _ ← operandFitting Γ rec .anyObject
  let _ ← operandFitting Γ rec .anyObject
  return .boolean

end Pictograph.Analysis
