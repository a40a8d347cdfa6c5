import Pictograph.Analysis.State
import Pictograph.Ty.Substitution

/-!
# Operands, arguments and statements

How a construct analyses the expressions inside it. The analysis of an expression in general is
passed in as `rec`, so that each construct can be understood on its own; `Analysis.expression` ties
the knot.
-/

namespace Pictograph.Analysis

/-! ## Operands -/

/-- Analyses the next expression. -/
def operand (Γ : Setting) (rec : Recursion) : Analysis Ty := do
  rec Γ (← next) none

/-- Analyses the next expression and also returns its first token's place. -/
def operandAndSpan (Γ : Setting) (rec : Recursion) : Analysis (Ty × Span) := do
  let token ← next
  return (← rec Γ token none, token.span)

/-- Analyses the expression that starts with a token, whose type has to fit another. -/
def fitting (Γ : Setting) (rec : Recursion) (token : Token) (expected : Ty) : Analysis Ty := do
  let found ← rec Γ token (some expected)
  require (Γ.catalogue.fits found expected)
    (.incompatible (Γ.typeName expected) (Γ.typeName found)) token.span
  return found

/-- Analyses the next expression, whose type has to fit another. -/
def operandFitting (Γ : Setting) (rec : Recursion) (expected : Ty) : Analysis Ty := do
  fitting Γ rec (← next) expected

/-! ## Arguments -/

/-- Analyses one expression for each of the types, which it has to fit. -/
def operandsFitting (Γ : Setting) (rec : Recursion) : List Ty → Analysis Unit
  | [] => return
  | t :: rest => do
    let _ ← operandFitting Γ rec t
    operandsFitting Γ rec rest

/-- Analyses the arguments of a call against their types. They may stand in brackets. -/
def arguments (Γ : Setting) (rec : Recursion) (expected : List Ty) : Analysis Unit := do
  let bracketed ← reading (Reading.accept (·.lexeme == .argumentsOpen))
  operandsFitting Γ rec expected
  if bracketed.isSome then
    let _ ← reading (Reading.expect .argumentsClose)

/-- Whether the body may use a member. -/
def mayUse (Γ : Setting) (m : Member) : Bool :=
  match m.visibility with
  | .everyone => true
  | .owner => Γ.selfType.objectId? == some m.owner
  | .descendants => Γ.selfType.objectId?.any (Γ.catalogue.descends · m.owner)

/-- Refuses a member that the body may not use. -/
def requireAccess (Γ : Setting) (m : Member) (span : Span) : Analysis Unit :=
  require (mayUse Γ m) (.accessDenied m.kind.text m.symbol.text m.visibility.text) span

/-- The types of the arguments of a member, as they read on a receiver. -/
def argumentTypes (m : Member) (receiver : Ty) : List Ty :=
  m.arguments.map fun a ↦ Ty.resolve receiver a.type

/-- Analyses the arguments of a call of a member and finds the type of the call. -/
def callMember (Γ : Setting) (rec : Recursion) (m : Member) (receiver : Ty) (span : Span) :
    Analysis Ty := do
  requireAccess Γ m span
  arguments Γ rec (argumentTypes m receiver)
  return Ty.resolve receiver m.result

/-! ## Statements -/

/-- Analyses a statement, and warns if it does nothing but compute a value. -/
def statement (Γ : Setting) (rec : Recursion) (token : Token) : Analysis Unit := do
  modifyFrame ({ · with hasEffect := false })
  let _ ← rec Γ token none
  if !(← frame).hasEffect then
    warn .noEffect token.span

/-- Analyses statements up to the end of a block. -/
def statements (Γ : Setting) (rec : Recursion) : Analysis Unit :=
  repeatUntil (fun (_ : Unit) ↦ do
    let token ← next
    if token.asksFor .blockClose then
      return .inr ()
    statement Γ rec token
    return .inl ()) ()

end Pictograph.Analysis
