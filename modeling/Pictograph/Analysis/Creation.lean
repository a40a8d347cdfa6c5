import Pictograph.Analysis.Invocation

/-!
# Creating instances

An instantiation runs an initializer of a class. The initializer of a subclass runs one of its
superclass once, after it has given a value to its own fields and where no branch or loop can skip
or repeat it.
-/

namespace Pictograph.Analysis

/-- Creates an instance, `🔷 type initializer arguments`. The class that `🐀` stands for is known only
when the program runs, so it has to be asked for an initializer that every subclass has. -/
def instantiate (Γ : Setting) (rec : Recursion) (span : Span) : Analysis Ty := do
  emit .instantiate
  let (t, dynamic) ← annotation Γ Γ.dynamism
  let c ← demand (Γ.catalogue.classOf? t)
    (.typeMismatch s!"{Γ.typeName t} cannot be instantiated") span
  require (!t.isOptional) (.typeMismatch "optionals cannot be instantiated") span
  emitWord (classWord c dynamic)
  let (initializer, initializerSpan) ← name
  let m ← demand (Γ.catalogue.initializer? t initializer)
    (.unknownInitializer (Γ.typeName t) initializer.text) initializerSpan
  require (!dynamic || m.isRequired) (.invalidOperation
    s!"only required initializers can be used with {Construct.dynamicClass.spelling.text}")
    initializerSpan
  emitNumber m.slot
  requireAccess Γ m initializerSpan
  arguments Γ rec (argumentTypes m t)
  return t.withOptional m.mayFail

/-- Initializes the superclass, `🐐 initializer arguments`. -/
def superInitializer (Γ : Setting) (rec : Recursion) (span : Span) : Analysis Ty := do
  let spelling := Construct.superInitializer.spelling.text
  require Γ.initializer?.isSome
    (.invalidOperation s!"{spelling} can only be used inside initializers") span
  let parent ← demand Γ.superclass? (.invalidOperation
    s!"{spelling} can only be used if the class inherits from another") span
  require (!(← frame).calledSuper) .repeatedSuperInitializer span
  require ((← frame).flowDepth == 0) (.invalidOperation
    "superinitializer may not be called inside a flow control block") span
  requireComplete Γ span
  emit .superInitializer
  emitNumber parent.index
  let (initializer, initializerSpan) ← name
  let m ← demand (Γ.catalogue.initializer? parent.selfType initializer)
    (.unknownInitializer (Γ.typeName parent.selfType) initializer.text) initializerSpan
  emitNumber m.slot
  requireAccess Γ m initializerSpan
  arguments Γ rec (argumentTypes m Γ.selfType)
  modifyFrame ({ · with calledSuper := true })
  return .nothingness

end Pictograph.Analysis
