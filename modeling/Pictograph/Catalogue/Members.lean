import Pictograph.Catalogue.Basic

/-!
# Member lookup

Methods and class methods are inherited: the nearest declaration along the lineage counts.
Initializers are not, unless they are required, in which case every subclass has them.
-/

namespace Pictograph.Catalogue

variable (cat : Catalogue)

/-- The nearest declaration of a member along the lineage of a class, whether it is inherited by the
rules of the language or not. An overriding declaration takes over the slot of this one. -/
def nearest? (kind : Procedure.Kind) (id : TypeId) (symbol : Symbol) : Option Member :=
  (cat.lineage id).findSome? (·.own? kind symbol)

/-- The method that a call on a value of a class or protocol type refers to. -/
def method? (t : Ty) (symbol : Symbol) : Option Member :=
  match t.kind with
  | .object id => cat.nearest? .method id symbol
  | .protocol id => (cat.protocol? id).bind (Member.named? ·.methods symbol)
  | _ => none

/-- The class method that a call on a class refers to. -/
def classMethod? (t : Ty) (symbol : Symbol) : Option Member :=
  t.objectId?.bind (cat.nearest? .classMethod · symbol)

/-- The initializer that an instantiation of a class refers to: one of its own, or else the nearest
one of its superclasses that is required. -/
def initializer? (t : Ty) (symbol : Symbol) : Option Member :=
  match t.objectId?.map cat.lineage with
  | some (c :: ancestors) =>
    (c.own? .initializer symbol).or
      ((ancestors.filterMap (·.own? .initializer symbol)).find? (·.isRequired))
  | _ => none

/-- The number of an enumeration value. -/
def enumValue? (t : Ty) (name : Symbol) : Option UInt64 :=
  match t.kind with
  | .enumeration id => (cat.enumeration? id).bind (·.number? name)
  | _ => none

end Pictograph.Catalogue
