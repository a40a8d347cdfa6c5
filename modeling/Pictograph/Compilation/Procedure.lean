import Pictograph.Analysis.Expression

/-!
# Compiling a procedure

The body of a procedure is analysed in the setting of its class, with the fields of the class in
reach unless it is a class method. The result is a record: the code, and the header that the
interpreter needs to run it. Native procedures have a header alone.
-/

namespace Pictograph

/-! ## Fields -/

/-- Declares fields in consecutive slots from `first` on. Inside an initializer a field has no value
at first, unless it is optional. -/
def declareFields (isInitializer : Bool) : (first : Nat) → Scope → List Field → Except Fault Scope
  | _, scope, [] => .ok scope
  | slot, scope, f :: rest => do
    if Slot.count ≤ slot then
      throw ((Cause.tooManyVariables Slot.count).at .nowhere)
    let v : Variable := { name := f.name, type := f.type, slot, span := .nowhere }
    let isReady := !isInitializer || f.type.isOptional
    let scope ← scope.declare (if isReady then v.ready else v)
    declareFields isInitializer (slot + 1) scope rest

/-- How many fields the ancestors of a class declare. -/
def Catalogue.inheritedFieldCount (cat : Catalogue) (c : Class) : Nat :=
  (cat.lineage c.id).tail.foldr (fun ancestor n ↦ ancestor.fields.length + n) 0

/-- The fields that a class declares, in slots behind those of its ancestors. -/
def Catalogue.fieldScope (cat : Catalogue) (c : Class) (isInitializer : Bool) :
    Except Fault Scope :=
  declareFields isInitializer (cat.inheritedFieldCount c) .empty c.fields

/-! ## Records -/

/-- What the interpreter knows about a procedure apart from its code. -/
structure Header where
  /-- The name. -/
  symbol : Symbol
  /-- The sort of procedure. -/
  kind : Procedure.Kind
  /-- The position in the dispatch table. -/
  slot : Nat
  /-- How many arguments it takes. -/
  argumentCount : Nat
  /-- Whether the host implements it. -/
  isNative : Bool
  /-- How many slots its frame has. -/
  slotCount : Nat
deriving DecidableEq

/-- A compiled procedure. -/
structure Record where
  /-- What the interpreter knows about it. -/
  header : Header
  /-- Its code. -/
  code : Chunk
deriving DecidableEq

/-- The header of a member whose frame has `slotCount` slots. -/
def Member.header (m : Member) (slotCount : Nat) : Header where
  symbol := m.symbol
  kind := m.kind
  slot := m.slot
  argumentCount := m.arguments.length
  isNative := m.isNative
  slotCount := slotCount

/-! ## Compilation -/

/-- The setting in which the body of a member is analysed. -/
def Setting.ofMember (cat : Catalogue) (options : Options) (c : Class) (m : Member) : Setting where
  catalogue := cat
  options := options
  selfType := c.selfType
  space := c.space
  isStatic := m.kind == .classMethod
  result := m.result
  initializer? := if m.kind = .initializer then some m.toProcedure else none

/-- The fields in reach of the body of a member. -/
def Catalogue.fieldsFor (cat : Catalogue) (c : Class) (m : Member) :
    Except Fault (Option Scope) :=
  match m.kind with
  | .classMethod => .ok none
  | .method => some <$> cat.fieldScope c false
  | .initializer => some <$> cat.fieldScope c true

/-- The record of a body after its analysis. Nothing may follow the end of the body. -/
def finishRecord (m : Member) (summary : Summary) (s : State) : Except Fault Record :=
  match s.cursor.peek with
  | some token =>
    .error ((Cause.unexpectedToken "end of body" token.lexeme.describe).at token.span)
  | none =>
    match s.assembler.finish? with
    | some code => .ok ⟨m.header summary.slotCount, code⟩
    | none => .error .misfilled

/-- Compiles a member of a class from the tokens of its body. The session takes up the strings and
the warnings of the body, also when the body is rejected. -/
def compile (cat : Catalogue) (options : Options) (session : Session) (c : Class) (m : Member)
    (tokens : List Token) : Except Fault Record × Session :=
  if m.isNative then
    (.ok ⟨m.header 0, .empty⟩, session)
  else
    match cat.fieldsFor c m with
    | .error fault => (.error fault, session)
    | .ok fields =>
      match analyse (.ofMember cat options c m) m.arguments fields session tokens with
      | .error fault s => (.error fault, s.session)
      | .ok summary s => (finishRecord m summary s, s.session)

end Pictograph
