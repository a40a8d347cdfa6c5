import Pictograph.Catalogue.Naming
import Pictograph.Source.Cursor

/-!
# Type annotations

The reader of type annotations:

* `annotation := [🍬] base`
* `base := 🐀`, the dynamic class of the context;
* `base := 👌 | 🚂 | 🚀 | 🔣 | ⚪ | 🔵 | ✨`, the built-in types;
* `base := 🍇 annotation* [➡ annotation] 🍉`, a callable;
* `base := [🔶 namespace] name (🐚 annotation)*`, a declared type.

A generic argument that is not written is the constraint of its parameter. Generic arguments are
read in the namespace of the name they belong to: an explicit namespace covers them too.

Every annotation starts with a token of its own, so the tokens still to come bound the recursion.
-/

namespace Pictograph

/-- Whether an annotation may name the dynamic class. -/
inductive Dynamism where
  | forbidden
  | allowed
deriving DecidableEq

namespace Catalogue

/-- The built-in type that a symbol names. -/
def builtIn? (symbol : Symbol) : Option Ty :=
  [(Vocabulary.boolean, Ty.boolean), (Vocabulary.integer, .integer), (Vocabulary.double, .double),
    (Vocabulary.symbol, .symbol), (Vocabulary.anything, .anything),
    (Vocabulary.anyObject, .anyObject), (Vocabulary.nothingness, .nothingness)].lookup symbol

/-- Reads the rest of a callable after its `🍇`. `read` reads one annotation, and the first argument
bounds the number of annotations. -/
def callableAnnotation (read : Reading Ty) : Nat → List Ty → Reading Ty
  | 0, _ => throw .exhausted
  | fuel + 1, arguments => do
    if (← Reading.acceptSymbol Construct.blockClose.spelling).isSome then
      return .callable .nothingness arguments
    if (← Reading.acceptSymbol Vocabulary.returnArrow).isSome then
      let result ← read
      let _ ← Reading.expectConstruct .blockClose Construct.blockClose.spelling
      return .callable result arguments
    let argument ← read
    callableAnnotation read fuel (arguments ++ [argument])

/-- Reads one generic argument for each constraint. -/
def genericArguments (read : Reading Ty) : List Ty → Reading (List Ty)
  | [] => return []
  | constraint :: rest => do
    let argument ←
      if (← Reading.acceptSymbol Vocabulary.genericMark).isSome then read else pure constraint
    return argument :: (← genericArguments read rest)

/-- Reads the rest of a declared type after its name. `span` is the place of the name. -/
def namedAnnotation (cat : Catalogue) (read : Reading Ty) (space name : Symbol) (span : Span) :
    Reading Ty := do
  match cat.named? space name with
  | none => throw ((Cause.unknownType (qualifiedName space name)).at span)
  | some t =>
    match cat.classOf? t with
    | none => return t
    | some c =>
      let arguments ← genericArguments read c.constraints
      match ← Reading.acceptSymbol Vocabulary.genericMark with
      | none => return t.withArguments arguments
      | some extra =>
        throw ((Cause.typeMismatch
          ("too many generic arguments for " ++ cat.typeName t)).at extra.span)

/-- Reads the dynamic class, which is the class of the context. -/
def dynamicAnnotation (context : Ty) (dynamism : Dynamism) (isOptional : Bool) (span : Span) :
    Reading Ty := do
  if dynamism = .forbidden then
    throw ((Cause.invalidOperation "dynamic types are not allowed here").at span)
  if context.objectId?.isNone then
    throw ((Cause.invalidOperation
      "dynamic types are only available in a class context").at span)
  return context.withOptional isOptional

/-- Reads an annotation with at most `fuel` levels of nesting. -/
def annotationWithin (cat : Catalogue) (context : Ty) :
    Nat → (space : Symbol) → Dynamism → Reading (Ty × Bool)
  | 0, _, _ => throw .exhausted
  | fuel + 1, space, dynamism => do
    let nested space : Reading Ty := Prod.fst <$> annotationWithin cat context fuel space .forbidden
    let isOptional := (← Reading.acceptSymbol Vocabulary.optionalMark).isSome
    let (symbol, span) ← Reading.name
    if symbol = Construct.dynamicClass.spelling then
      return (← dynamicAnnotation context dynamism isOptional span, true)
    if let some t := builtIn? symbol then
      return (t.withOptional isOptional, false)
    if symbol = Construct.blockOpen.spelling then
      let t ← callableAnnotation (nested space) ((← get).remaining + 1) []
      return (t.withOptional isOptional, false)
    if symbol = Vocabulary.namespaceMark then
      let (explicit, _) ← Reading.name
      let (name, span) ← Reading.name
      let t ← cat.namedAnnotation (nested explicit) explicit name span
      return (t.withOptional isOptional, false)
    let t ← cat.namedAnnotation (nested space) space symbol span
    return (t.withOptional isOptional, false)

/-- Reads one type annotation. `context` is the class that the dynamic class stands for, and
unqualified names are looked up in `space`. Returns the type and whether it is the dynamic class. -/
def annotation (cat : Catalogue) (context : Ty) (space : Symbol) (dynamism : Dynamism) :
    Reading (Ty × Bool) := do
  cat.annotationWithin context ((← get).remaining + 1) space dynamism

end Catalogue

end Pictograph
