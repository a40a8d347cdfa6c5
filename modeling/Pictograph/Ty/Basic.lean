import Pictograph.Identity.TypeId

/-!
# Static types

A type is a kind with two modifiers: whether the value may be nothingness, and a list of generic
arguments. Being optional is a mark on a type, not a type around it, so `T??` and `T?` are the same
and taking the mark off is always possible.

Every kind can carry generic arguments. They mean something on classes, where they are the arguments
for the parameters of the class, and on callables, where the first one is the return type and the
others are the argument types.
-/

namespace Pictograph

/-- What sort of value a type describes, before the modifiers. -/
inductive Ty.Kind where
  | boolean
  | integer
  | double
  | symbol
  /-- Instances of a class. -/
  | object (id : TypeId)
  /-- Instances of the classes that conform to a protocol. -/
  | protocol (id : TypeId)
  /-- Values of an enumeration. -/
  | enumeration (id : TypeId)
  | callable
  /-- Every value. -/
  | anything
  /-- Every class instance. -/
  | anyObject
  /-- No proper value; also the return type of procedures that return nothing. -/
  | nothingness
  /-- Whatever stands for a generic parameter of the surrounding class. -/
  | parameter (index : Nat)
deriving DecidableEq, Inhabited

/-- The static type of an expression. -/
structure Ty where
  /-- The sort of value. -/
  kind : Ty.Kind
  /-- Whether the value may be nothingness instead. -/
  isOptional : Bool
  /-- The generic arguments. -/
  arguments : List Ty

namespace Ty

/-! ## Equality -/

mutual

/-- Decides equality of types by comparing them part by part. -/
def decEq : (t u : Ty) → Decidable (t = u)
  | ⟨k, o, ts⟩, ⟨l, p, us⟩ =>
    match decEqList ts us with
    | isTrue h => decidable_of_iff (k = l ∧ o = p) (by simp [h])
    | isFalse h => isFalse (by simp [h])

/-- Decides equality of lists of types. -/
def decEqList : (ts us : List Ty) → Decidable (ts = us)
  | [], [] => isTrue rfl
  | [], _ :: _ => isFalse (by simp)
  | _ :: _, [] => isFalse (by simp)
  | t :: ts, u :: us =>
    match decEq t u, decEqList ts us with
    | isTrue h, isTrue h' => isTrue (by rw [h, h'])
    | isFalse h, _ => isFalse (by simp [h])
    | _, isFalse h => isFalse (by simp [h])

end

instance : DecidableEq Ty := decEq

/-! ## Construction -/

/-- The type of a kind, neither optional nor with generic arguments. -/
def plain (kind : Kind) : Ty := ⟨kind, false, []⟩

instance : Inhabited Ty := ⟨plain .nothingness⟩

/-- Truth values. -/
def boolean : Ty := plain .boolean
/-- Integers. -/
def integer : Ty := plain .integer
/-- Floating point numbers. -/
def double : Ty := plain .double
/-- Symbols. -/
def symbol : Ty := plain .symbol
/-- Every value. -/
def anything : Ty := plain .anything
/-- Every class instance. -/
def anyObject : Ty := plain .anyObject
/-- No proper value. -/
def nothingness : Ty := plain .nothingness
/-- A class, its generic parameters (if it has any) not filled in. -/
def object (id : TypeId) : Ty := plain (.object id)
/-- A class with its generic arguments. -/
def objectOf (id : TypeId) (arguments : List Ty) : Ty := ⟨.object id, false, arguments⟩
/-- A protocol. -/
def protocol (id : TypeId) : Ty := plain (.protocol id)
/-- An enumeration. -/
def enumeration (id : TypeId) : Ty := plain (.enumeration id)
/-- A generic parameter of the surrounding class. -/
def parameter (index : Nat) : Ty := plain (.parameter index)
/-- The strings. -/
def string : Ty := object TypeId.string

/-- Callables that take `arguments` and return `result`. -/
def callable (result : Ty) (arguments : List Ty) : Ty :=
  ⟨.callable, false, result :: arguments⟩

/-! ## Modifiers -/

/-- The same type with the given optional mark. -/
def withOptional (t : Ty) (isOptional : Bool) : Ty := { t with isOptional }

/-- The same type, optional. -/
def optional (t : Ty) : Ty := t.withOptional true

/-- The same type, not optional. -/
def unwrapped (t : Ty) : Ty := t.withOptional false

/-- The same type with other generic arguments. -/
def withArguments (t : Ty) (arguments : List Ty) : Ty := { t with arguments }

/-! ## Queries -/

/-- Whether the kind is nothingness, whatever the optional mark says. -/
def isNothingness (t : Ty) : Bool := t.kind == .nothingness

/-- The class of a class type. -/
def objectId? (t : Ty) : Option TypeId :=
  match t.kind with
  | .object id => some id
  | _ => none

/-- The protocol of a protocol type. -/
def protocolId? (t : Ty) : Option TypeId :=
  match t.kind with
  | .protocol id => some id
  | _ => none

/-- The return type of a callable. A callable without any generic argument has none. -/
def result? (t : Ty) : Option Ty :=
  match t.kind with
  | .callable => t.arguments.head?
  | _ => none

/-- The argument types of a callable; empty for any other type. -/
def callArguments (t : Ty) : List Ty :=
  match t.kind with
  | .callable => t.arguments.tail
  | _ => []

end Ty

end Pictograph
