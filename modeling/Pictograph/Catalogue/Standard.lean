import Pictograph.Catalogue.Registration

/-!
# The standard types

Every program can rely on strings, lists, dictionaries and the protocol of what can be iterated.
Only the members that the analysis relies on are declared, and the host implements all of them.
-/

namespace Pictograph

namespace Standard

/-- A method that the host implements. -/
def nativeMethod (code : UInt32) (arguments : List Argument) (result : Ty) : Procedure :=
  { symbol := ⟨code⟩, arguments, result, isNative := true }

/-- The element type inside a collection class. -/
def element : Ty := .parameter 0

/-- The initializer `🐸` of an empty collection. -/
def emptyInitializer : Procedure := { symbol := ⟨0x1F438⟩, isNative := true }

/-- The method `🐔` that counts the elements. -/
def count : Procedure := nativeMethod 0x1F414 [] .integer

/-- The enumerable protocol. It declares no method. -/
def enumerable : ProtocolDeclaration where
  space := Vocabulary.defaultNamespace
  name := Vocabulary.enumerableProtocol

/-- Strings, with their length `📏` and their equality `😛`. -/
def string : ClassDeclaration where
  space := Vocabulary.defaultNamespace
  name := Vocabulary.stringClass
  methods := [nativeMethod 0x1F4CF [] .integer, nativeMethod 0x1F61B [⟨"other", .string⟩] .boolean]

/-- Lists, which append with `🐻` and look up by position with `🐽`. -/
def list : ClassDeclaration where
  space := Vocabulary.defaultNamespace
  name := Vocabulary.listClass
  constraints := [.anything]
  protocols := [TypeId.enumerable]
  initializers := [emptyInitializer]
  methods := [count, nativeMethod 0x1F43B [⟨"item", element⟩] .nothingness,
    nativeMethod 0x1F43D [⟨"index", .integer⟩] element.optional]

/-- Dictionaries, which look up by key with `🐽` and store with `🐷`. -/
def dictionary : ClassDeclaration where
  space := Vocabulary.defaultNamespace
  name := Vocabulary.dictionaryClass
  constraints := [.anything]
  initializers := [emptyInitializer]
  methods := [count, nativeMethod 0x1F43D [⟨"key", .string⟩] element.optional,
    nativeMethod 0x1F437 [⟨"key", .string⟩, ⟨"value", element⟩] .nothingness]

/-- The standard types in registration order. -/
def declarations : List Declaration :=
  [.ofProtocol enumerable, .ofClass string, .ofClass list, .ofClass dictionary]

end Standard

namespace Catalogue

/-- Registers a type unless its name is taken or its declaration is refused; then the catalogue
stays as it is. -/
def addIfPossible (cat : Catalogue) (d : Declaration) : Catalogue :=
  if cat.contains d.typeId then
    cat
  else
    match cat.add d with
    | .ok extended => extended
    | .error _ => cat

/-- Registers the standard types whose names are still free. -/
def addStandard (cat : Catalogue) : Catalogue :=
  Standard.declarations.foldl addIfPossible cat

/-- The catalogue of the standard types. -/
def standard : Catalogue := empty.addStandard

end Catalogue

end Pictograph
