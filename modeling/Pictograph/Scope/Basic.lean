import Pictograph.Scope.Variable

/-!
# Scopes

A scope holds the variables of one block, or the fields of an object, in declaration order. A scope
declares no name twice.
-/

namespace Pictograph

/-- The variables of one block. -/
structure Scope where
  /-- The variables in declaration order. -/
  declared : List Variable := []
deriving DecidableEq

/-- Applies `f` to the first element that passes the test, if there is one. -/
def updateFirst {α : Type} (test : α → Bool) (f : α → α) : List α → List α
  | [] => []
  | a :: rest => if test a then f a :: rest else a :: updateFirst test f rest

/-- Applies `f` to the elements in front of the first one that fails the test, and `g` to that one.
The elements after it stay as they are. -/
def updateUpTo {α : Type} (test : α → Bool) (f g : α → α) : List α → List α
  | [] => []
  | a :: rest => if test a then f a :: updateUpTo test f g rest else g a :: rest

namespace Scope

/-- The scope without variables. -/
def empty : Scope := {}

/-- The variable with this name. -/
def find? (s : Scope) (name : String) : Option Variable :=
  s.declared.find? (·.name == name)

/-- Whether the scope declares this name. -/
def contains (s : Scope) (name : String) : Bool :=
  s.declared.any (·.name == name)

/-- Declares a variable. The name must be free in this scope. -/
def declare (s : Scope) (v : Variable) : Except Fault Scope :=
  if s.contains v.name then
    .error ((Cause.redeclaration v.name).at v.span)
  else
    .ok ⟨s.declared ++ [v]⟩

/-- Changes the variable with this name. -/
def update (s : Scope) (name : String) (f : Variable → Variable) : Scope :=
  ⟨updateFirst (·.name == name) f s.declared⟩

/-- Whether some variable of the scope has this slot. -/
def hasSlot (s : Scope) (id : Nat) : Bool :=
  s.declared.any (·.slot == id)

/-- Changes the first variable that has this slot. -/
def updateSlot (s : Scope) (id : Nat) (f : Variable → Variable) : Scope :=
  ⟨updateFirst (·.slot == id) f s.declared⟩

/-- Shifts the counters of the variables that have a value. -/
def shift (s : Scope) (delta : Int) : Scope :=
  ⟨s.declared.map (·.shift delta)⟩

/-- Whether all counters stay in their range when they are shifted. -/
def canShift (s : Scope) (delta : Int) : Bool :=
  s.declared.all (·.canShift delta)

/-- What a shift leaves behind that breaks off at the first counter it would take out of its range.
The counters before that one are shifted already. -/
def shiftBrokenOff (s : Scope) (delta : Int) : Scope :=
  ⟨updateUpTo (·.canShift delta) (·.shift delta) id s.declared⟩

/-- The first variable that may not be read. -/
def firstUnready? (s : Scope) : Option Variable :=
  s.declared.find? fun v ↦ !v.isReady

/-- The variables that could have been declared frozen. -/
def freezable (s : Scope) : List Variable :=
  s.declared.filter fun v ↦ !v.isFrozen && !v.isMutated

/-- The slots of the variables whose value was given in the innermost block. -/
def settledHere (s : Scope) : List Nat :=
  (s.declared.filter (·.readiness == 1)).map (·.slot)

end Scope

end Pictograph
