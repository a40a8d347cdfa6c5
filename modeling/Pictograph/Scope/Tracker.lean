import Mathlib.Init
import Pictograph.Scope.Environment

/-!
# Indexed scopes

A scope finds a variable by going through all of them. An indexed scope has an index beside the
variables, in which the position of a name is looked up. A tracker is an environment of indexed
scopes. It looks for a name in one scope after the other, the innermost first, and where it collects
the variables that are visible it goes through all of them and keeps a set of the names it has met.
-/

namespace Pictograph

/-- The variables of one block, and an index of their names. -/
structure IndexedScope where
  /-- The variables in declaration order. -/
  declared : Array Variable := #[]
  /-- The position of each name. -/
  index : Std.HashMap String Nat := ∅

namespace IndexedScope

/-- The scope without variables. -/
def empty : IndexedScope := {}

/-- Whether the scope declares this name. -/
def contains (s : IndexedScope) (name : String) : Bool :=
  s.index.contains name

/-- The variable with this name. -/
def find? (s : IndexedScope) (name : String) : Option Variable :=
  s.index[name]?.bind fun position ↦ s.declared[position]?

/-- Declares a variable. The name must be free in this scope. -/
def declare (s : IndexedScope) (v : Variable) : Except Fault IndexedScope :=
  if s.contains v.name then
    .error ((Cause.redeclaration v.name).at v.span)
  else
    .ok ⟨s.declared.push v, s.index.insert v.name s.declared.size⟩

/-- Changes the variable with this name. -/
def update (s : IndexedScope) (name : String) (f : Variable → Variable) : IndexedScope :=
  match s.index[name]? with
  | some position => { s with declared := s.declared.modify position f }
  | none => s

/-- Whether some variable of the scope has this slot. -/
def hasSlot (s : IndexedScope) (id : Nat) : Bool :=
  s.declared.any (·.slot == id)

/-- Changes the first variable that has this slot. -/
def updateSlot (s : IndexedScope) (id : Nat) (f : Variable → Variable) : IndexedScope :=
  match s.declared.findIdx? (·.slot == id) with
  | some position => { s with declared := s.declared.modify position f }
  | none => s

/-- Shifts the counters of the variables that have a value. -/
def shift (s : IndexedScope) (delta : Int) : IndexedScope :=
  { s with declared := s.declared.map (·.shift delta) }

end IndexedScope

/-- The scopes within reach. There always is at least the scope of the body. -/
structure Tracker where
  /-- The innermost block. -/
  current : IndexedScope := .empty
  /-- The blocks around it, the innermost first. -/
  outer : List IndexedScope := []
  /-- The fields of the object. -/
  fields : Option IndexedScope := none

namespace Tracker

/-- The tracker of a body that has declared nothing. -/
def start (fields : Option IndexedScope) : Tracker := { fields }

/-- The local scopes, the innermost first. -/
def locals (t : Tracker) : List IndexedScope := t.current :: t.outer

/-- The tracker with other local scopes, of which there is at least one. -/
def withLocals (t : Tracker) (locals : List IndexedScope) : Tracker :=
  match locals with
  | current :: outer => { t with current, outer }
  | [] => t

/-- Enters a block. -/
def push (t : Tracker) (s : IndexedScope) : Tracker :=
  { t with current := s, outer := t.current :: t.outer }

/-- Leaves the innermost block. The scope of the body is never left. -/
def pop? (t : Tracker) : Option (IndexedScope × Tracker) :=
  match t.outer with
  | [] => none
  | s :: outer => some (t.current, { t with current := s, outer })

/-- Declares a variable in the innermost block. It may hide one of an outer block. -/
def declare (t : Tracker) (v : Variable) : Except Fault Tracker := do
  return { t with current := ← t.current.declare v }

/-- The variable that a name refers to, and where it is stored. -/
def resolve? (t : Tracker) (name : String) : Option (Storage × Variable) :=
  match t.locals.find? (·.contains name) with
  | some s => (s.find? name).map (.frame, ·)
  | none => (t.fields.bind (·.find? name)).map (.object, ·)

/-- Changes the variable that a name refers to. -/
def update (t : Tracker) (name : String) (f : Variable → Variable) : Tracker :=
  if t.locals.any (·.contains name) then
    t.withLocals (updateFirst (·.contains name) (·.update name f) t.locals)
  else
    { t with fields := t.fields.map (·.update name f) }

/-- Takes a variable if no variable of its name was met so far. -/
def collect (met : Std.HashSet String × Array Variable) (v : Variable) :
    Std.HashSet String × Array Variable :=
  if met.1.contains v.name then met else (met.1.insert v.name, met.2.push v)

/-- The local variables that some name refers to, the innermost block first. -/
def visible (t : Tracker) : List Variable :=
  (t.locals.foldl (fun met s ↦ s.declared.foldl collect met) (∅, #[])).2.toList

/-- Shifts the counters of all local variables and, if `withFields`, of the fields. -/
def shift (t : Tracker) (delta : Int) (withFields : Bool) : Tracker where
  current := t.current.shift delta
  outer := t.outer.map (·.shift delta)
  fields := if withFields then t.fields.map (·.shift delta) else t.fields

/-- Gives a value to the variable in a slot; among local variables the innermost counts. -/
def settle (t : Tracker) (slot : Slot) : Tracker :=
  match slot.storage with
  | .frame =>
    t.withLocals (updateFirst (·.hasSlot slot.id) (·.updateSlot slot.id Variable.settle) t.locals)
  | .object => { t with fields := t.fields.map (·.updateSlot slot.id Variable.settle) }

end Tracker

end Pictograph
