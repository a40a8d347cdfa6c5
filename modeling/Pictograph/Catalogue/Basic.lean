import Pictograph.Declaration.Types

/-!
# The catalogue of declared types

A catalogue holds the registered classes, protocols and enumerations. Each list is kept with the
latest registration first. A class can only be registered after its superclass, so the ancestors of
a class always stand further down the list than the class itself, and walking the superclass chain
is a recursion on the list.

## Main definitions

* `Catalogue.class?`, `Catalogue.protocol?`, `Catalogue.enumeration?` look up a type by identity.
* `Catalogue.lineage` is the chain from a class to its root.
* `Catalogue.descends` and `Catalogue.conforms` are the two relations read off the lineage.
-/

namespace Pictograph

/-- The declared types of a program. -/
structure Catalogue where
  /-- The classes, the latest registration first. -/
  latestClasses : List Class := []
  /-- The protocols, the latest registration first. -/
  latestProtocols : List Protocol := []
  /-- The enumerations, the latest registration first. -/
  latestEnumerations : List Enumeration := []

namespace Catalogue

/-- The catalogue without any type. -/
def empty : Catalogue := {}

/-! ## Lookup by identity -/

/-- The class with this identity. -/
def class? (cat : Catalogue) (id : TypeId) : Option Class :=
  cat.latestClasses.find? (·.id == id)

/-- The protocol with this identity. -/
def protocol? (cat : Catalogue) (id : TypeId) : Option Protocol :=
  cat.latestProtocols.find? (·.id == id)

/-- The enumeration with this identity. -/
def enumeration? (cat : Catalogue) (id : TypeId) : Option Enumeration :=
  cat.latestEnumerations.find? (·.typeId == id)

/-- Whether some type has this identity. -/
def contains (cat : Catalogue) (id : TypeId) : Bool :=
  (cat.class? id).isSome || (cat.protocol? id).isSome || (cat.enumeration? id).isSome

/-- The class of a class type. -/
def classOf? (cat : Catalogue) (t : Ty) : Option Class :=
  t.objectId?.bind cat.class?

/-- The classes in the order of the class table. -/
def classes (cat : Catalogue) : List Class := cat.latestClasses.reverse

/-- The protocols in the order of the protocol table. -/
def protocols (cat : Catalogue) : List Protocol := cat.latestProtocols.reverse

/-- The type that a name stands for in a namespace, without generic arguments. -/
def named? (cat : Catalogue) (space name : Symbol) : Option Ty :=
  let id := TypeId.of space name
  if (cat.class? id).isSome then
    some (.object id)
  else if (cat.protocol? id).isSome then
    some (.protocol id)
  else if (cat.enumeration? id).isSome then
    some (.enumeration id)
  else
    none

/-! ## Inheritance -/

/-- The chain of superclasses within a list that has every class in front of its superclass. -/
def lineageIn : List Class → TypeId → List Class
  | [], _ => []
  | c :: older, id =>
    if c.id = id then
      c :: match c.superclass? with
        | some parent => lineageIn older parent
        | none => []
    else
      lineageIn older id

/-- A class and its superclasses, from the class itself to the root. -/
def lineage (cat : Catalogue) (id : TypeId) : List Class :=
  lineageIn cat.latestClasses id

/-- Whether a class is `ancestor` or inherits from it. -/
def descends (cat : Catalogue) (id ancestor : TypeId) : Bool :=
  (cat.lineage id).any (·.id == ancestor)

/-- Whether a class or one of its superclasses declares to conform to a protocol. -/
def conforms (cat : Catalogue) (id protocol : TypeId) : Bool :=
  (cat.lineage id).any (·.protocols.contains protocol)

/-- Whether the values of a type can be iterated. -/
def isEnumerable (cat : Catalogue) (t : Ty) : Bool :=
  match t.kind with
  | .object id => cat.conforms id TypeId.enumerable
  | .protocol id => id == TypeId.enumerable
  | _ => false

end Catalogue

end Pictograph
