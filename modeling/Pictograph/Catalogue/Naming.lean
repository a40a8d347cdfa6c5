import Pictograph.Catalogue.Basic
import Pictograph.Construct

/-!
# Names of types

Messages show a type the way an annotation writes it. A declared type is qualified with its
namespace unless that is the default one, and a type that is not registered shows its identity.
-/

namespace Pictograph

/-- A name as an annotation writes it from outside its namespace. -/
def qualifiedName (space name : Symbol) : String :=
  if space = Vocabulary.defaultNamespace then
    name.text
  else
    Vocabulary.namespaceMark.text ++ space.text ++ name.text

namespace Catalogue

/-- The name of a kind that needs no generic arguments, and of the class itself for classes. -/
def kindName (cat : Catalogue) : Ty.Kind → String
  | .boolean => Vocabulary.boolean.text
  | .integer => Vocabulary.integer.text
  | .double => Vocabulary.double.text
  | .symbol => Vocabulary.symbol.text
  | .anything => Vocabulary.anything.text
  | .anyObject => Vocabulary.anyObject.text
  | .nothingness => Vocabulary.nothingness.text
  | .parameter index => "T" ++ toString index
  | .object id =>
    match cat.class? id with
    | some c => qualifiedName c.space c.name
    | none => id.text
  | .protocol id =>
    match cat.protocol? id with
    | some p => qualifiedName p.space p.name
    | none => id.text
  | .enumeration id =>
    match cat.enumeration? id with
    | some e => qualifiedName e.space e.name
    | none => id.text
  | .callable => ""

/-- The text of a callable type from the names of its generic arguments, return type first. The
return type is left out when it is nothingness. -/
def callableName (returnsNothing : Bool) : List String → String
  | [] => Construct.blockOpen.spelling.text ++ Construct.blockClose.spelling.text
  | result :: arguments =>
    let arrow := if returnsNothing then "" else Vocabulary.returnArrow.text ++ result
    Construct.blockOpen.spelling.text ++ String.join arguments ++ arrow
      ++ Construct.blockClose.spelling.text

mutual

/-- The name of a type. -/
def typeName (cat : Catalogue) : Ty → String
  | ⟨kind, isOptional, arguments⟩ =>
    let mark := if isOptional then Vocabulary.optionalMark.text else ""
    let names := typeNames cat arguments
    match kind with
    | .object id =>
      let generics := names.map fun name ↦ Vocabulary.genericMark.text ++ name
      mark ++ cat.kindName (.object id) ++ String.join generics
    | .callable => mark ++ callableName (arguments.head?.any (·.isNothingness)) names
    | kind => mark ++ cat.kindName kind

/-- The names of some types. -/
def typeNames (cat : Catalogue) : List Ty → List String
  | [] => []
  | t :: ts => typeName cat t :: typeNames cat ts

end

end Catalogue

end Pictograph
