import Pictograph.Analysis.Operand
import Pictograph.Analysis.Operation
import Pictograph.Catalogue.Members

/-!
# Calls

A call names the method first, then the receiver, then the arguments. Which instruction it takes
depends on the type of the receiver, so its opcode is filled in after the receiver.
-/

namespace Pictograph.Analysis

/-- The cause of a call of a method that the receiver does not have. -/
def noSuchMethod (Γ : Setting) (receiver : Ty) (method : Symbol) : Cause :=
  .unknownMethod (Γ.typeName receiver) method.text

/-- The type through which a call is dispatched: for a generic parameter, its constraint. -/
def dispatchType (Γ : Setting) (receiver : Ty) : Ty :=
  match receiver.kind with
  | .parameter index => ((Γ.class?.bind (·.constraints[index]?))).getD receiver
  | _ => receiver

/-- The method of a class that a call on a value of a class type refers to. -/
def objectMethod? (Γ : Setting) (receiver : Ty) (method : Symbol) : Option Member :=
  if receiver.objectId?.isSome then Γ.catalogue.method? receiver method else none

/-- Calls a method or applies an operator, `method receiver arguments`. -/
def call (Γ : Setting) (rec : Recursion) (method : Symbol) (span : Span) : Analysis Ty := do
  let opcode ← reserve
  let (receiver, receiverSpan) ← operandAndSpan Γ rec
  require (!receiver.isOptional) .optionalReceiver receiverSpan
  let dispatch := dispatchType Γ receiver
  match dispatch.kind with
  | .protocol id =>
    let p ← demand (Γ.catalogue.protocol? id) (noSuchMethod Γ receiver method) span
    let m ← demand (Γ.catalogue.method? dispatch method) (noSuchMethod Γ receiver method) span
    fillOpcode opcode .protocolMethodCall
    emitNumber p.index
    emitNumber m.slot
    callMember Γ rec m receiver span
  | .object _ =>
    let m ← demand (Γ.catalogue.method? dispatch method) (noSuchMethod Γ receiver method) span
    fillOpcode opcode .methodCall
    emitNumber m.slot
    callMember Γ rec m receiver span
  | _ =>
    let operation ← demand (Operation.find? dispatch method)
      (.unknownOperator method.text (Γ.typeName receiver)) span
    fillOpcode opcode (.operator operation.operator)
    if let some operand := operation.operand? then
      let _ ← operandFitting Γ rec operand
    return operation.result

/-- Calls a method unless the receiver is nothingness, `🍻 method receiver arguments`. The call may
not happen, so its type is optional. -/
def optionalChain (Γ : Setting) (rec : Recursion) (span : Span) : Analysis Ty := do
  emit .optionalChain
  let count ← reserveCount
  let (method, methodSpan) ← name
  let t ← operand Γ rec
  require t.isOptional (.typeMismatch
    s!"{Construct.optionalChain.spelling.text} can only be used with optionals") span
  let receiver := t.unwrapped
  let m ← demand (objectMethod? Γ receiver method) (noSuchMethod Γ receiver method) methodSpan
  emitNumber m.slot
  fillCount count
  return (← callMember Γ rec m receiver methodSpan).optional

/-- The word that stands for a class: its index, or all bits set for the dynamic class. -/
def classWord (c : Class) (dynamic : Bool) : UInt32 :=
  if dynamic then 0xFFFFFFFF else UInt32.ofNat c.index

/-- Calls a class method, `🍩 method type arguments`. -/
def callClassMethod (Γ : Setting) (rec : Recursion) : Analysis Ty := do
  emit .classMethodCall
  let (method, span) ← name
  let (annotated, dynamic) ← annotation Γ Γ.dynamism
  if annotated.isOptional then
    warn .redundantOptionalMark span
  let t := annotated.unwrapped
  let c ← demand (Γ.catalogue.classOf? t)
    (.typeMismatch s!"{Γ.typeName t} has no class methods") span
  emitWord (classWord c dynamic)
  let m ← demand (Γ.catalogue.classMethod? t method) (noSuchMethod Γ t method) span
  emitNumber m.slot
  callMember Γ rec m t span

/-- Calls the method of the superclass on the instance, `🐿 method arguments`. -/
def callSuperMethod (Γ : Setting) (rec : Recursion) (span : Span) : Analysis Ty := do
  let (method, methodSpan) ← name
  require (!Γ.isStatic) (.invalidOperation
    s!"{Construct.superMethod.spelling.text} cannot be used in a class method") span
  let parent ← demand Γ.superclass? (.invalidOperation "class has no superclass") span
  emit .superMethodCall
  emitNumber parent.index
  let m ← demand (Γ.catalogue.method? parent.selfType method)
    (noSuchMethod Γ parent.selfType method) methodSpan
  emitNumber m.slot
  useSelf
  callMember Γ rec m Γ.selfType methodSpan

/-- Binds a method to a receiver without calling it, `🌶 method receiver`. -/
def captureMethod (Γ : Setting) (rec : Recursion) : Analysis Ty := do
  let (method, span) ← name
  emit .captureMethod
  let (receiver, receiverSpan) ← operandAndSpan Γ rec
  require (!receiver.isOptional) .optionalReceiver receiverSpan
  let m ← demand (objectMethod? Γ receiver method) (noSuchMethod Γ receiver method) span
  emitNumber m.slot
  requireAccess Γ m span
  return .callable (Ty.resolve receiver m.result) (argumentTypes m receiver)

/-- Calls a callable, `🍭 callable arguments`. -/
def invoke (Γ : Setting) (rec : Recursion) : Analysis Ty := do
  emit .invoke
  let (t, span) ← operandAndSpan Γ rec
  require (t.kind == .callable && !t.isOptional)
    (.typeMismatch s!"{Γ.typeName t} is not callable") span
  arguments Γ rec t.callArguments
  return t.result?.getD .nothingness

end Pictograph.Analysis
