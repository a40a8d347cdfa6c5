import Pictograph.Catalogue.Compatibility

/-!
# Common types

The elements of a collection literal may have different types; the collection is then one of a type
that all of them fit.
-/

namespace Pictograph.Catalogue

/-- The type of instances of the nearest class that both classes descend from. Where there is none,
all that is left is to be an instance. -/
def joinObjects (cat : Catalogue) (a b : Ty) (left right : TypeId) : Ty :=
  let isOptional := a.isOptional || b.isOptional
  match (cat.lineage left).find? fun c ↦ cat.descends right c.id with
  | some c =>
    let arguments := if c.id = left ∧ a.arguments = b.arguments then a.arguments else []
    ⟨.object c.id, isOptional, arguments⟩
  | none => Ty.anyObject.withOptional isOptional

/-- A common type of two types: the wider one if one fits the other, the optional type if one of
them is nothingness, the nearest common ancestor of two classes, and else the type of everything. -/
def join (cat : Catalogue) (a b : Ty) : Ty :=
  if cat.fits b a then
    a
  else if cat.fits a b then
    b
  else if a.isNothingness then
    b.optional
  else if b.isNothingness then
    a.optional
  else
    match a.objectId?, b.objectId? with
    | some left, some right => cat.joinObjects a b left right
    | _, _ => .anything

/-- Joins one more type to what the types before it have in common. -/
def joinNext (cat : Catalogue) (common? : Option Ty) (t : Ty) : Option Ty :=
  match common? with
  | some common => some (cat.join common t)
  | none => some t

end Pictograph.Catalogue
