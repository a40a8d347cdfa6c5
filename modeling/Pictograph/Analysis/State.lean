import Pictograph.Catalogue.Annotation
import Pictograph.Catalogue.Compatibility
import Pictograph.Code.Assembler
import Pictograph.Compilation.Options
import Pictograph.Compilation.Session
import Pictograph.Scope.Environment
import Pictograph.Source.Cursor

/-!
# The state of an analysis

A body is analysed in one pass over its tokens. Each token starts an expression; the analysis finds
its static type, checks it against the construct around it and writes its code on the way.

What stays the same throughout a body is its `Setting`. What changes is the `State`, which is shared
by a body and the closures in it, apart from its `Frame` and its local scopes: those are the
closure's own. An analysis that fails keeps the state it failed in, because the words, strings and
warnings up to there remain visible.

Everything the constructs do is put together from the operations of this module.
-/

namespace Pictograph

/-- What is known about a body before its first token. -/
structure Setting where
  /-- The declared types. -/
  catalogue : Catalogue
  /-- The switches. -/
  options : Options
  /-- The type of the instance, or of the class in a class method. -/
  selfType : Ty
  /-- The namespace of unqualified names. -/
  space : Symbol
  /-- Whether the body runs without an instance. -/
  isStatic : Bool
  /-- The type of the value that is returned. -/
  result : Ty := .nothingness
  /-- The declaration of the initializer, if the body is one. -/
  initializer? : Option Procedure := none

/-- What the analysis keeps for each body and each closure on its own. -/
structure Frame where
  /-- How many slots were handed out. -/
  slotCount : Nat := 0
  /-- How many conditional blocks are open. -/
  flowDepth : Nat := 0
  /-- Whether the statement did something besides computing a value. -/
  hasEffect : Bool := false
  /-- Whether the body returned unconditionally. -/
  hasReturned : Bool := false
  /-- Whether the body refers to the instance. -/
  usesSelf : Bool := false
  /-- Whether the superclass was initialized. -/
  calledSuper : Bool := false
deriving DecidableEq

/-- What changes during an analysis. -/
structure State where
  /-- The place in the body. -/
  cursor : Cursor
  /-- The code written so far. -/
  assembler : Assembler
  /-- Strings and warnings of the run. -/
  session : Session
  /-- The variables within reach. -/
  environment : Environment
  /-- The bookkeeping of the running body or closure. -/
  frame : Frame
deriving DecidableEq

/-- A step of an analysis. -/
abbrev Analysis := EStateM Fault State

/-- The analysis of an expression from its first token, which has been read. The type is the one the
context asks for, as a hint for literals that do not show their type. -/
abbrev Recursion := Setting → Token → Option Ty → Analysis Ty

namespace Setting

variable (Γ : Setting)

/-- The class that the body belongs to. -/
def class? : Option Class := Γ.catalogue.classOf? Γ.selfType

/-- Whether the class of the body inherits from another. -/
def hasSuperclass : Bool := Γ.class?.any (·.superclass?.isSome)

/-- The class that the class of the body inherits from. -/
def superclass? : Option Class :=
  (Γ.class?.bind (·.superclass?)).bind Γ.catalogue.class?

/-- Only class methods can name the dynamic class. -/
def dynamism : Dynamism := if Γ.isStatic then .allowed else .forbidden

/-- The name of a type in messages. -/
def typeName (t : Ty) : String := Γ.catalogue.typeName t

end Setting

namespace Analysis

/-! ## Failing -/

/-- Rejects the body. -/
def fail {α : Type} (cause : Cause) (span : Span) : Analysis α :=
  throw (cause.at span)

/-- Rejects the body unless a condition holds. -/
@[macro_inline] def require (condition : Bool) (cause : Cause) (span : Span) : Analysis Unit :=
  if condition then pure () else fail cause span

/-- The value of an option, without which the body is rejected. -/
@[macro_inline] def demand {α : Type} (value? : Option α) (cause : Cause) (span : Span) :
    Analysis α :=
  match value? with
  | some value => pure value
  | none => fail cause span

/-- A computation that may fail but has no state. -/
def lift {α : Type} : Except Fault α → Analysis α
  | .ok value => pure value
  | .error fault => throw fault

/-- Repeats a step, which passes a value on to itself, until it gives an answer. -/
def repeating {σ β : Type} (step : σ → Analysis (σ ⊕ β)) : Nat → σ → Analysis β
  | 0, _ => throw .exhausted
  | fuel + 1, value => do
    match ← step value with
    | .inl value => repeating step fuel value
    | .inr answer => return answer

/-- Repeats a step until it gives an answer. Each step has to read a token, so the tokens that are
still to come bound the repetitions. -/
def repeatUntil {σ β : Type} (step : σ → Analysis (σ ⊕ β)) (value : σ) : Analysis β := do
  repeating step ((← get).cursor.remaining + 1) value

/-! ## Reading -/

/-- Reads from the tokens of the body. -/
def reading {α : Type} (r : Reading α) : Analysis α := fun s ↦
  match r s.cursor with
  | .ok value cursor => .ok value { s with cursor }
  | .error fault cursor => .error fault { s with cursor }

/-- Reads a token. -/
def next : Analysis Token := reading Reading.next

/-- Reads a name. -/
def name : Analysis (Symbol × Span) := reading Reading.name

/-- Reads the name of a variable. -/
def variableName : Analysis (String × Span) := reading Reading.variableName

/-- Reads the next token if it asks for a construct, and says whether it did. -/
def accepts (construct : Construct) : Analysis Bool :=
  Option.isSome <$> reading (Reading.acceptConstruct construct)

/-- The place to blame for what comes next. -/
def here : Analysis Span := do
  return (← get).cursor.here

/-- Reads a type annotation. -/
def annotation (Γ : Setting) (dynamism : Dynamism) : Analysis (Ty × Bool) :=
  reading (Γ.catalogue.annotation Γ.selfType Γ.space dynamism)

/-! ## Writing -/

/-- Changes the code written so far. -/
def assemble (f : Assembler → Assembler) : Analysis Unit :=
  modify fun s ↦ { s with assembler := f s.assembler }

/-- Makes a line the source line of what is written next. -/
def setLine (line : Nat) : Analysis Unit := assemble (·.atLine line)

/-- Writes an opcode. -/
def emit (op : Opcode) : Analysis Unit := assemble (·.opcode op)

/-- Writes an operand. -/
def emitWord (w : UInt32) : Analysis Unit := assemble (·.word w)

/-- Writes a number as an operand. -/
def emitNumber (n : Nat) : Analysis Unit := emitWord (UInt32.ofNat n)

/-- Writes a 64-bit operand. -/
def emitWide (value : UInt64) : Analysis Unit := assemble (·.wide value)

/-- Reserves a word for a value or an opcode. -/
def reserve : Analysis Hole :=
  modifyGet fun s ↦
    let (hole, assembler) := s.assembler.reserve
    (hole, { s with assembler })

/-- Reserves a word for a count. -/
def reserveCount : Analysis CountHole :=
  modifyGet fun s ↦
    let (hole, assembler) := s.assembler.reserveCount
    (hole, { s with assembler })

/-- Fills a reserved word. -/
def filling (f : Assembler → Option Assembler) : Analysis Unit := fun s ↦
  match f s.assembler with
  | some assembler => .ok () { s with assembler }
  | none => .error .misfilled s

/-- Fills a reserved word with a value. -/
def fill (hole : Hole) (w : UInt32) : Analysis Unit := filling (·.fill? hole w)

/-- Fills a reserved word with an opcode. -/
def fillOpcode (hole : Hole) (op : Opcode) : Analysis Unit := filling (·.fillOpcode? hole op)

/-- Fills a reserved word with the number of words after it. -/
def fillCount (hole : CountHole) : Analysis Unit := filling (·.fillCount? hole)

/-! ## The session -/

/-- Records a warning. -/
def warn (remark : Remark) (span : Span) : Analysis Unit :=
  modify fun s ↦ { s with session := s.session.warn ⟨remark, span⟩ }

/-- The position of a string in the string table. -/
def intern (content : String) : Analysis Nat :=
  modifyGet fun s ↦
    let (index, session) := s.session.intern content
    (index, { s with session })

/-! ## Variables -/

/-- The variable that a name refers to. -/
def resolve? (name : String) : Analysis (Option (Storage × Variable)) := do
  return (← get).environment.resolve? name

/-- Changes the variables within reach. -/
def modifyEnvironment (f : Environment → Environment) : Analysis Unit :=
  modify fun s ↦ { s with environment := f s.environment }

/-- Declares a variable in the innermost block. -/
def declare (v : Variable) : Analysis Unit := fun s ↦
  match s.environment.declare v with
  | .ok environment => .ok () { s with environment }
  | .error fault => .error fault s

/-- Refuses a name that the innermost block declares already. -/
def requireUndeclared (name : String) (span : Span) : Analysis Unit := do
  let declared := (← get).environment.current.contains name
  require (!declared) (.redeclaration name) span

/-- Refuses, in an initializer, an object with a field that has no value. -/
def requireComplete (Γ : Setting) (span : Span) : Analysis Unit := do
  if Γ.initializer?.isSome then
    lift ((← get).environment.requireComplete span)

/-! ## The frame -/

/-- Changes the bookkeeping of the running body. -/
def modifyFrame (f : Frame → Frame) : Analysis Unit :=
  modify fun s ↦ { s with frame := f s.frame }

/-- The bookkeeping of the running body. -/
def frame : Analysis Frame := do
  return (← get).frame

/-- Notes that the body refers to the instance. -/
def useSelf : Analysis Unit := modifyFrame ({ · with usesSelf := true })

/-- Refuses a slot beyond the limit. -/
def requireSlot (Γ : Setting) (slot : Nat) (span : Span) : Analysis Unit :=
  require (slot < Γ.options.slotLimit && slot < Slot.count)
    (.tooManyVariables Γ.options.slotLimit) span

/-- Hands out the next slot. -/
def newSlot (Γ : Setting) (span : Span) : Analysis Nat := do
  let slot := (← frame).slotCount
  requireSlot Γ slot span
  modifyFrame ({ · with slotCount := slot + 1 })
  return slot

/-- Writes an access to a variable. Access to a field is a use of the instance. -/
def emitAccess (storage : Storage) (action : Access) (slot : Nat) : Analysis Unit := do
  emit (.access storage action)
  if storage = .object then
    useSelf
  emitNumber slot

end Analysis

end Pictograph
