import Pictograph.Source.Span

/-!
# Diagnostics

What the analysis has to say about a body. An error ends the analysis and carries its cause; a
warning is recorded and the analysis goes on. Each of them points at the place it is about, and its
message starts with that place.

The texts inside a cause are names and renderings chosen where the cause arises; the sentence around
them is chosen here, once for each cause.
-/

namespace Pictograph

/-! ## Errors -/

/-- Why a body is rejected. -/
inductive Cause where
  /-- A name is declared a second time in one scope. -/
  | redeclaration (name : String)
  /-- No reachable scope declares the name. -/
  | unresolvedVariable (name : String)
  /-- The variable is read where some path leaves it without a value. -/
  | uninitializedVariable (name : String)
  /-- A field is without a value where the object must be complete. -/
  | uninitializedField (name : String)
  /-- A member is used from outside its reach. -/
  | accessDenied (kind name visibility : String)
  /-- A construct is applied to a value of a type it does not work on. -/
  | typeMismatch (message : String)
  /-- The type of an expression does not fit the type required of it. -/
  | incompatible (expected found : String)
  /-- A primitive value does not have this operator. -/
  | unknownOperator (operator typeName : String)
  /-- Values cannot be cast to this type. -/
  | invalidCastTarget (typeName : String)
  /-- A method is called on a value that may be nothingness. -/
  | optionalReceiver
  /-- An initializer of a subclass ends without initializing its superclass. -/
  | missingSuperInitializer
  /-- The superclass is initialized a second time. -/
  | repeatedSuperInitializer
  /-- Another token is required here. -/
  | unexpectedToken (expected found : String)
  /-- The body ends inside a construct. -/
  | unexpectedEnd
  /-- The body can end without returning the value it owes. -/
  | missingReturn
  /-- A value is returned where none may be. -/
  | invalidReturn (message : String)
  /-- A frozen variable is written again. -/
  | frozenMutation (name : String)
  /-- An annotation names no declared type. -/
  | unknownType (name : String)
  /-- The type has no such method. -/
  | unknownMethod (typeName method : String)
  /-- The type has no such initializer. -/
  | unknownInitializer (typeName initializer : String)
  /-- The enumeration has no such value. -/
  | unknownEnumValue (typeName value : String)
  /-- A construct is used where it is not allowed. -/
  | invalidOperation (message : String)
  /-- The procedure needs more variable slots than there are. -/
  | tooManyVariables (limit : Nat)
deriving DecidableEq

/-- The sentence that explains a cause. -/
def Cause.message : Cause → String
  | redeclaration name => s!"cannot redeclare variable '{name}'"
  | unresolvedVariable name => s!"variable '{name}' not defined"
  | uninitializedVariable name => s!"variable '{name}' is possibly not initialized"
  | uninitializedField name => s!"instance variable '{name}' must be initialized"
  | accessDenied kind name visibility => s!"{kind} {name} is {visibility}"
  | typeMismatch message => message
  | incompatible expected found => s!"{found} is not compatible to {expected}"
  | unknownOperator operator typeName => s!"unknown primitive method {operator} for {typeName}"
  | invalidCastTarget typeName => s!"you cannot cast to {typeName}"
  | optionalReceiver => "you cannot call methods on optionals"
  | missingSuperInitializer => "missing call to superinitializer"
  | repeatedSuperInitializer => "superinitializer was already called"
  | unexpectedToken expected found => s!"expected {expected} but found {found}"
  | unexpectedEnd => "unexpected end of body"
  | missingReturn => "an explicit return is missing"
  | invalidReturn message => message
  | frozenMutation name => s!"cannot modify frozen variable '{name}'"
  | unknownType name => s!"could not find type {name}"
  | unknownMethod typeName method => s!"{typeName} has no method {method}"
  | unknownInitializer typeName initializer => s!"{typeName} has no initializer {initializer}"
  | unknownEnumValue typeName value => s!"{typeName} does not have a member named {value}"
  | invalidOperation message => message
  | tooManyVariables limit => s!"too many variables in one procedure (limit {limit})"

/-- A cause at a place. -/
structure Diagnostic where
  /-- Why the body is rejected. -/
  cause : Cause
  /-- The token to blame. -/
  span : Span
deriving DecidableEq

/-- The whole message of an error. -/
def Diagnostic.message (d : Diagnostic) : String :=
  s!"at {d.span.text}: {d.cause.message}"

/-! ## Warnings -/

/-- What is odd about a body that is accepted nevertheless. -/
inductive Remark where
  /-- A statement computes a value and drops it. -/
  | noEffect
  /-- Statements follow an unconditional return. -/
  | deadCode
  /-- The value has the target type of the cast already. -/
  | redundantCast
  /-- An optional mark where it means nothing. -/
  | redundantOptionalMark
  /-- The variable is never written again and could be frozen. -/
  | couldBeFrozen (name : String)
  /-- An empty literal of which no context tells the element type. -/
  | emptyCollection
deriving DecidableEq

/-- The sentence that explains a remark. -/
def Remark.message : Remark → String
  | noEffect => "statement has no effect"
  | deadCode => "dead code"
  | redundantCast => "superfluous cast"
  | redundantOptionalMark => "please remove the superfluous optional marker"
  | couldBeFrozen name => s!"variable '{name}' was never mutated; consider making it frozen"
  | emptyCollection => "type of empty collection literal defaults to something"

/-- A remark at a place. -/
structure Warning where
  /-- What is odd. -/
  remark : Remark
  /-- The token it is about. -/
  span : Span
deriving DecidableEq

/-- The whole message of a warning. -/
def Warning.message (w : Warning) : String :=
  s!"at {w.span.text}: {w.remark.message}"

/-! ## Faults -/

/-- Why an analysis stops early. Only a diagnosis is about the body; the others say that the
analysis itself went wrong, and are kept apart from it so that their absence can be stated. -/
inductive Fault where
  /-- The body is rejected. -/
  | diagnosed (diagnostic : Diagnostic)
  /-- A reserved word was filled out of order. -/
  | misfilled
  /-- The counter of a variable left its range. -/
  | overflowed
  /-- The recursion went deeper than there are tokens. -/
  | exhausted
deriving DecidableEq

/-- The fault of rejecting a body. -/
abbrev Cause.at (cause : Cause) (span : Span) : Fault :=
  .diagnosed ⟨cause, span⟩

end Pictograph
