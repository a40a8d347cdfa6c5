import Pictograph.Scope.Basic

/-!
# Environments

The variables within reach of a body: the scopes of the blocks around the current token, the scope
of the body itself outermost, and behind them the fields of the object, unless the body runs without
one. A name refers to its innermost declaration, and to a field only if no block declares it.
-/

namespace Pictograph

/-- The scopes within reach. There always is at least the scope of the body. -/
structure Environment where
  /-- The innermost block. -/
  current : Scope := .empty
  /-- The blocks around it, the innermost first. -/
  outer : List Scope := []
  /-- The fields of the object. -/
  fields : Option Scope := none
deriving DecidableEq

namespace Environment

/-- The environment of a body that has declared nothing. -/
def start (fields : Option Scope) : Environment := { fields }

/-- The local scopes, the innermost first. -/
def locals (e : Environment) : List Scope := e.current :: e.outer

/-- The number of local scopes. -/
def depth (e : Environment) : Nat := e.locals.length

/-- The environment with other local scopes, of which there is at least one. -/
def withLocals (e : Environment) (locals : List Scope) : Environment :=
  match locals with
  | current :: outer => { e with current, outer }
  | [] => e

/-! ## Blocks -/

/-- Enters a block. -/
def push (e : Environment) (s : Scope) : Environment :=
  { e with current := s, outer := e.current :: e.outer }

/-- Leaves the innermost block. The scope of the body is never left. -/
def pop? (e : Environment) : Option (Scope × Environment) :=
  match e.outer with
  | [] => none
  | s :: outer => some (e.current, { e with current := s, outer })

/-- The scope of the body itself. -/
def body (e : Environment) : Scope := e.outer.getLast?.getD e.current

/-! ## Variables -/

/-- Declares a variable in the innermost block. It may hide one of an outer block. -/
def declare (e : Environment) (v : Variable) : Except Fault Environment := do
  return { e with current := ← e.current.declare v }

/-- The variable that a name refers to, and where it is stored. -/
def resolve? (e : Environment) (name : String) : Option (Storage × Variable) :=
  match e.locals.findSome? (·.find? name) with
  | some v => some (.frame, v)
  | none => (e.fields.bind (·.find? name)).map (.object, ·)

/-- Changes the variable that a name refers to. -/
def update (e : Environment) (name : String) (f : Variable → Variable) : Environment :=
  if e.locals.any (·.contains name) then
    e.withLocals (updateFirst (·.contains name) (·.update name f) e.locals)
  else
    { e with fields := e.fields.map (·.update name f) }

/-- Leaves out the variables that another one before them hides. -/
def withoutHidden (seen : List String) : List Variable → List Variable
  | [] => []
  | v :: rest =>
    if v.name ∈ seen then withoutHidden seen rest else v :: withoutHidden (v.name :: seen) rest

/-- The local variables that some name refers to, the innermost block first. -/
def visible (e : Environment) : List Variable :=
  withoutHidden [] (e.locals.flatMap (·.declared))

/-! ## Conditional blocks -/

/-- Shifts the counters of all local variables and, if `withFields`, of the fields. -/
def shift (e : Environment) (delta : Int) (withFields : Bool) : Environment where
  current := e.current.shift delta
  outer := e.outer.map (·.shift delta)
  fields := if withFields then e.fields.map (·.shift delta) else e.fields

/-- Whether all counters stay in their range when they are shifted. -/
def canShift (e : Environment) (delta : Int) (withFields : Bool) : Bool :=
  e.locals.all (·.canShift delta) && (!withFields || e.fields.all (·.canShift delta))

/-- What a shift leaves behind that breaks off at the first counter it would take out of its range.
The scope of the body comes first, then the blocks in it, and the fields last. -/
def shiftBrokenOff (e : Environment) (delta : Int) (withFields : Bool) : Environment :=
  let outermostFirst :=
    updateUpTo (·.canShift delta) (·.shift delta) (·.shiftBrokenOff delta) e.locals.reverse
  let e' := e.withLocals outermostFirst.reverse
  if withFields && e.locals.all (·.canShift delta) then
    { e' with fields := e'.fields.map (·.shiftBrokenOff delta) }
  else
    e'

/-- Enters a block that may be skipped. -/
def enterConditional (e : Environment) (withFields : Bool) : Environment :=
  e.shift 1 withFields

/-- The variables that were given their value since the innermost conditional block was entered: the
local ones, those of the body first, and then the fields. -/
def settledHere (e : Environment) (withFields : Bool) : List Slot :=
  let frame := e.locals.reverse.flatMap (·.settledHere)
  let object := if withFields then e.fields.elim [] (·.settledHere) else []
  frame.map (Slot.mk .frame) ++ object.map (Slot.mk .object)

/-- Leaves a block that may have been skipped. The variables that got their value inside it are
reported, and have none afterwards. -/
def leaveConditional (e : Environment) (withFields : Bool) : List Slot × Environment :=
  (e.settledHere withFields, e.shift (-1) withFields)

/-- Gives a value to the variable in a slot; among local variables the innermost counts. -/
def settle (e : Environment) (slot : Slot) : Environment :=
  match slot.storage with
  | .frame =>
    e.withLocals (updateFirst (·.hasSlot slot.id) (·.updateSlot slot.id Variable.settle) e.locals)
  | .object => { e with fields := e.fields.map (·.updateSlot slot.id Variable.settle) }

/-- Refuses an object with a field that has no value. -/
def requireComplete (e : Environment) (span : Span) : Except Fault Unit :=
  match e.fields.bind (·.firstUnready?) with
  | some field => .error ((Cause.uninitializedField field.name).at span)
  | none => .ok ()

end Environment

end Pictograph
