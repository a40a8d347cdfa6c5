import Pictograph.Analysis.Operand

/-!
# Casts and unwrapping

The two ways from a type to a narrower one: a cast, which yields nothingness if the value is of
another type when the program runs, and unwrapping, which insists that an optional value is there.
-/

namespace Pictograph.Analysis

/-- Whether a cast has to expect nothingness in a value of this type. -/
def needsSafeCast (t : Ty) : Bool :=
  t.kind == .anything || t.isOptional

/-- Whether each generic argument is as wide as the constraint of its parameter and no wider. Only
then can a cast test for the class alone. -/
def hasWidestArguments (Γ : Setting) (t : Ty) (c : Class) : Bool :=
  t.arguments.length == c.constraints.length
    && (t.arguments.zip c.constraints).all fun (argument, constraint) ↦
      Γ.catalogue.fits argument constraint && Γ.catalogue.fits constraint argument

/-- Casts a value, `🔲 value type`. -/
def cast (Γ : Setting) (rec : Recursion) (span : Span) : Analysis Ty := do
  let opcode ← reserve
  let found ← operandFitting Γ rec .anything
  let (target, _) ← annotation Γ .forbidden
  if Γ.catalogue.fits found target then
    warn .redundantCast span
  let safe := needsSafeCast found
  let invalid := Cause.invalidCastTarget (Γ.typeName target)
  match target.kind with
  | .object id =>
    let c ← demand (Γ.catalogue.class? id) invalid span
    require (hasWidestArguments Γ target c) (.typeMismatch
      "dynamic casts involving generic type arguments are not possible yet") span
    fillOpcode opcode (.cast (.object safe))
    emitNumber c.index
  | .protocol id =>
    let p ← demand (Γ.catalogue.protocol? id) invalid span
    fillOpcode opcode (.cast (.protocol safe))
    emitNumber p.index
  | .boolean => fillOpcode opcode (.cast .boolean)
  | .integer => fillOpcode opcode (.cast .integer)
  | .symbol => fillOpcode opcode (.cast .symbol)
  | .double => fillOpcode opcode (.cast .double)
  | _ => fail invalid span
  return target.optional

/-- Insists on an optional value, `🍺 value`. -/
def unwrap (Γ : Setting) (rec : Recursion) (span : Span) : Analysis Ty := do
  emit .unwrap
  let t ← operand Γ rec
  require t.isOptional
    (.typeMismatch s!"{Γ.typeName t} can only be used with optionals") span
  return t.unwrapped

end Pictograph.Analysis
