import Pictograph.Catalogue.Basic

/-!
# Compatibility

A value of one type may be used where another type is required if the first *fits* the second:

* everything fits `anything`;
* nothingness fits nothingness and every optional type;
* an optional type fits no type that is not optional;
* a class fits its ancestors, unless generic arguments are asked for that differ from its own; it
  fits `anyObject` and the protocols it conforms to;
* a callable fits a callable of as many arguments if the return type fits and the argument types fit
  the other way round;
* any other type fits the types of its kind.

## Recursion

Arguments of callables swap the two sides, so a recursion on one of them is not structural. The
relation is therefore computed along one fixed type, together with a flag that says on which side of
the relation that type stands.
-/

namespace Pictograph.Catalogue

/-- The part of the relation that needs no recursion: two types of which the first is neither
nothingness nor optional without need, and the second is not `anything`. Callables are left to the
given answer. -/
def fitsKind (cat : Catalogue) (found expected : Ty) (callables : Bool) : Bool :=
  match found.kind, expected.kind with
  | .object a, .object b =>
    cat.descends a b && (expected.arguments.isEmpty || found.arguments == expected.arguments)
  | .object _, .anyObject => true
  | .object c, .protocol p => cat.conforms c p
  | .callable, .callable => callables
  | k, l => k == l

/-- Whether `found` fits `expected`, given the answer for the signatures of two callables. -/
def fitsGiven (cat : Catalogue) (found expected : Ty) (callables : Bool) : Bool :=
  if expected.kind = .anything then
    true
  else if found.isNothingness then
    expected.isNothingness || expected.isOptional
  else if found.isOptional && !expected.isOptional then
    false
  else
    cat.fitsKind found expected callables

mutual

/-- Whether the first type fits the second or, if `turned`, the second fits the first. -/
def fitsTurned (cat : Catalogue) (turned : Bool) : (t u : Ty) → Bool
  | ⟨kind, isOptional, arguments⟩, u =>
    let t : Ty := ⟨kind, isOptional, arguments⟩
    let callables := signatureFits cat turned arguments u.arguments
    if turned then cat.fitsGiven u t callables else cat.fitsGiven t u callables

/-- The relation of the generic arguments of two callables: return types the same way round,
argument types the other way. A callable without a return type is unrelated to all. -/
def signatureFits (cat : Catalogue) (turned : Bool) : (ts us : List Ty) → Bool
  | t :: ts, u :: us => fitsTurned cat turned t u && allFit cat (!turned) ts us
  | _, _ => false

/-- The relation of two lists of types of one length, member by member. -/
def allFit (cat : Catalogue) (turned : Bool) : (ts us : List Ty) → Bool
  | [], [] => true
  | t :: ts, u :: us => fitsTurned cat turned t u && allFit cat turned ts us
  | _, _ => false

end

/-- Whether a value of type `found` may be used where `expected` is required. -/
def fits (cat : Catalogue) (found expected : Ty) : Bool :=
  fitsTurned cat false found expected

end Pictograph.Catalogue
