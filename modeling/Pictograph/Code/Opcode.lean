import Pictograph.Slot

/-!
# The instruction set

The paired interpreter is a stack machine that evaluates in prefix order: an opcode is followed by
its immediate words and then by the code of its operands. Every opcode and every immediate operand
takes one 32-bit word; a 64-bit immediate takes two, the high word first.

Opcodes that differ only in where a variable is stored, in the type of number they work on or in
whether a cast accepts nothingness are grouped, so that code which emits them can say which variant
it means.
-/

namespace Pictograph

/-- What an instruction does to a variable. -/
inductive Access where
  | load
  | store
  | increment
  | decrement
deriving DecidableEq

/-- The operators that both kinds of number have. -/
inductive Arithmetic where
  | subtract
  | add
  | multiply
  | divide
  | less
  | greater
  | lessOrEqual
  | greaterOrEqual
deriving DecidableEq

/-- The operators on primitive values. Each of them takes its operands, one for `not` and two for
all others. -/
inductive Operator where
  /-- Equality of two values of one type. -/
  | equal
  /-- Equality of two doubles. -/
  | equalDoubles
  | not
  | or
  | and
  | remainder
  | onIntegers (operation : Arithmetic)
  | onDoubles (operation : Arithmetic)
deriving DecidableEq

/-- What a cast tests for. Casts of class instances come in a safe variant for values that may be
nothingness. -/
inductive CastTarget where
  /-- Operands: value, class index. -/
  | object (safe : Bool)
  /-- Operands: value, protocol index. -/
  | protocol (safe : Bool)
  | boolean
  | integer
  | symbol
  | double
deriving DecidableEq

/-- An instruction of the interpreter. -/
inductive Opcode where
  /-- Operands: receiver, slot, arguments. -/
  | methodCall
  /-- Operands: class index (all bits set for the dynamic class), slot, arguments. -/
  | classMethodCall
  /-- Operands: receiver, protocol index, slot, arguments. -/
  | protocolMethodCall
  /-- Operands: class index (all bits set for the dynamic class), slot, arguments. -/
  | instantiate
  /-- Operands: superclass index, slot, arguments. -/
  | superMethodCall
  /-- Operand: index in the string table. -/
  | string
  /-- A truth value. -/
  | boolean (value : Bool)
  /-- Operand: one word in two's complement. -/
  | integer
  /-- Operands: high word, low word. -/
  | wideInteger
  /-- Operands: high word and low word of the bit pattern. -/
  | double
  /-- Operand: symbol code. -/
  | symbol
  | nothingness
  /-- Operand: slot; a store is followed by the value. -/
  | access (storage : Storage) (action : Access)
  /-- Operands: the operands of the operator. -/
  | operator (operator : Operator)
  /-- Operands: two values. -/
  | identical
  /-- Operand: value. -/
  | isNothingness
  /-- Operand: value. -/
  | unwrap
  /-- Operands: word count of receiver and slot, receiver, slot, arguments. -/
  | optionalChain
  | selfReference
  /-- Operands: superclass index, slot, arguments. -/
  | superInitializer
  /-- Operands: slot, value. -/
  | conditionalBind
  /-- Operand: value, and an index where the target says so. -/
  | cast (target : CastTarget)
  /-- Operands: word count, pairs of key and value. -/
  | dictionary
  /-- Operands: word count, elements. -/
  | list
  /-- Operands: number of strings, strings. -/
  | concatenate
  /-- Operand: value. -/
  | returning
  /-- Operands: condition, word count, body. -/
  | repeatWhile
  /-- Operands: word count of the chain, branches. -/
  | ifChain
  /-- Operands: slot of the element, slot of the interpreter, iteratee, word count, body. -/
  | forIn (overList : Bool)
  /-- Starts a further conditional branch inside a chain. -/
  | elseIfBranch
  /-- Starts the last branch inside a chain. -/
  | elseBranch
  /-- Operands: slot count, word count, body, argument count with self flag, captured slots. -/
  | closure
  /-- Operands: receiver, slot. -/
  | captureMethod
  /-- Operands: callable, arguments. -/
  | invoke
deriving DecidableEq

namespace Opcode

/-- The word of an operator on integers. -/
def integerWord : Arithmetic → UInt32
  | .subtract => 0x21
  | .add => 0x22
  | .multiply => 0x23
  | .divide => 0x24
  | .less => 0x29
  | .greater => 0x2A
  | .lessOrEqual => 0x2B
  | .greaterOrEqual => 0x2C

/-- The word of an operator on doubles. -/
def doubleWord : Arithmetic → UInt32
  | .subtract => 0x30
  | .add => 0x31
  | .multiply => 0x32
  | .divide => 0x33
  | .less => 0x34
  | .greater => 0x35
  | .lessOrEqual => 0x36
  | .greaterOrEqual => 0x37

/-- The word of an operator. -/
def operatorWord : Operator → UInt32
  | .equal => 0x20
  | .equalDoubles => 0x2F
  | .not => 0x26
  | .or => 0x27
  | .and => 0x28
  | .remainder => 0x25
  | .onIntegers operation => integerWord operation
  | .onDoubles operation => doubleWord operation

/-- The word of an access to a variable. -/
def accessWord : Storage → Access → UInt32
  | .frame, .increment => 0x18
  | .frame, .decrement => 0x19
  | .frame, .load => 0x1A
  | .frame, .store => 0x1B
  | .object, .load => 0x1C
  | .object, .store => 0x1D
  | .object, .increment => 0x1E
  | .object, .decrement => 0x1F

/-- The word of a cast. -/
def castWord : CastTarget → UInt32
  | .object false => 0x40
  | .protocol false => 0x41
  | .boolean => 0x42
  | .integer => 0x43
  | .object true => 0x44
  | .protocol true => 0x45
  | .symbol => 0x46
  | .double => 0x47

/-- The word an opcode is written as. -/
def word : Opcode → UInt32
  | methodCall => 0x01
  | classMethodCall => 0x02
  | protocolMethodCall => 0x03
  | instantiate => 0x04
  | superMethodCall => 0x05
  | string => 0x10
  | boolean true => 0x11
  | boolean false => 0x12
  | integer => 0x13
  | wideInteger => 0x14
  | double => 0x15
  | symbol => 0x16
  | nothingness => 0x17
  | access storage action => accessWord storage action
  | operator o => operatorWord o
  | identical => 0x2D
  | isNothingness => 0x2E
  | unwrap => 0x3A
  | optionalChain => 0x3B
  | selfReference => 0x3C
  | superInitializer => 0x3D
  | conditionalBind => 0x3E
  | cast target => castWord target
  | dictionary => 0x50
  | list => 0x51
  | concatenate => 0x52
  | returning => 0x60
  | repeatWhile => 0x61
  | ifChain => 0x62
  | forIn false => 0x64
  | forIn true => 0x65
  | elseIfBranch => 0x68
  | elseBranch => 0x69
  | closure => 0x70
  | captureMethod => 0x71
  | invoke => 0x72

/-- The name of an operator that both kinds of number have. -/
def arithmeticName : Arithmetic → String
  | .subtract => "SUBTRACT"
  | .add => "ADD"
  | .multiply => "MULTIPLY"
  | .divide => "DIVIDE"
  | .less => "LESS"
  | .greater => "GREATER"
  | .lessOrEqual => "LESS_OR_EQUAL"
  | .greaterOrEqual => "GREATER_OR_EQUAL"

/-- The name of an operator. -/
def operatorName : Operator → String
  | .equal => "EQUAL"
  | .equalDoubles => "EQUAL_DOUBLE"
  | .not => "NOT"
  | .or => "OR"
  | .and => "AND"
  | .remainder => "REMAINDER_INTEGER"
  | .onIntegers operation => arithmeticName operation ++ "_INTEGER"
  | .onDoubles operation => arithmeticName operation ++ "_DOUBLE"

/-- The name of an access, without the storage. -/
def accessName : Access → String
  | .load => "LOAD"
  | .store => "STORE"
  | .increment => "INCREMENT"
  | .decrement => "DECREMENT"

/-- The name of a cast. -/
def castName : CastTarget → String
  | .object false => "CAST_TO_CLASS"
  | .protocol false => "CAST_TO_PROTOCOL"
  | .boolean => "CAST_TO_BOOLEAN"
  | .integer => "CAST_TO_INTEGER"
  | .object true => "SAFE_CAST_TO_CLASS"
  | .protocol true => "SAFE_CAST_TO_PROTOCOL"
  | .symbol => "CAST_TO_SYMBOL"
  | .double => "CAST_TO_DOUBLE"

/-- The name an opcode has in listings. -/
def name : Opcode → String
  | methodCall => "METHOD_CALL"
  | classMethodCall => "CLASS_METHOD_CALL"
  | protocolMethodCall => "PROTOCOL_METHOD_CALL"
  | instantiate => "INSTANTIATE"
  | superMethodCall => "SUPER_METHOD_CALL"
  | string => "STRING_LITERAL"
  | boolean true => "TRUE"
  | boolean false => "FALSE"
  | integer => "INTEGER"
  | wideInteger => "WIDE_INTEGER"
  | double => "DOUBLE"
  | symbol => "SYMBOL_LITERAL"
  | nothingness => "NOTHINGNESS"
  | access .frame action => accessName action ++ "_LOCAL"
  | access .object action => accessName action ++ "_INSTANCE"
  | operator o => operatorName o
  | identical => "IDENTITY_COMPARE"
  | isNothingness => "IS_NOTHINGNESS"
  | unwrap => "UNWRAP"
  | optionalChain => "OPTIONAL_CHAIN_CALL"
  | selfReference => "SELF_REFERENCE"
  | superInitializer => "SUPERINITIALIZER"
  | conditionalBind => "CONDITIONAL_BIND"
  | cast target => castName target
  | dictionary => "DICTIONARY_LITERAL"
  | list => "LIST_LITERAL"
  | concatenate => "CONCATENATE"
  | returning => "RETURN"
  | repeatWhile => "REPEAT_WHILE"
  | ifChain => "IF"
  | forIn false => "FOR_IN_ENUMERABLE"
  | forIn true => "FOR_IN_LIST"
  | elseIfBranch => "ELSE_IF"
  | elseBranch => "ELSE"
  | closure => "CLOSURE"
  | captureMethod => "CAPTURE_METHOD"
  | invoke => "INVOKE_CALLABLE"

/-! ## Decoding -/

/-- The operators that both kinds of number have. -/
def arithmetics : List Arithmetic :=
  [.subtract, .add, .multiply, .divide, .less, .greater, .lessOrEqual, .greaterOrEqual]

/-- Every opcode. -/
def all : List Opcode :=
  [methodCall, classMethodCall, protocolMethodCall, instantiate, superMethodCall, string,
    boolean true, boolean false, integer, wideInteger, double, symbol, nothingness, identical,
    isNothingness, unwrap, optionalChain, selfReference, superInitializer, conditionalBind,
    dictionary, list, concatenate, returning, repeatWhile, ifChain, forIn false, forIn true,
    elseIfBranch, elseBranch, closure, captureMethod, invoke]
  ++ [Storage.frame, .object].flatMap (fun storage ↦
    [Access.load, .store, .increment, .decrement].map (access storage))
  ++ ([Operator.equal, .equalDoubles, .not, .or, .and, .remainder]
    ++ arithmetics.map Operator.onIntegers ++ arithmetics.map Operator.onDoubles).map operator
  ++ [CastTarget.object false, .object true, .protocol false, .protocol true, .boolean, .integer,
    .symbol, .double].map cast

/-- The opcode that is written as `w`. -/
def ofWord? (w : UInt32) : Option Opcode :=
  all.find? (·.word == w)

theorem mem_all (o : Opcode) : o ∈ all := by
  cases o with
  | access storage action => cases storage <;> cases action <;> decide
  | operator o =>
    cases o with
    | onIntegers operation => cases operation <;> decide
    | onDoubles operation => cases operation <;> decide
    | _ => decide
  | cast target =>
    cases target with
    | object safe => cases safe <;> decide
    | protocol safe => cases safe <;> decide
    | _ => decide
  | boolean value => cases value <;> decide
  | forIn overList => cases overList <;> decide
  | _ => decide

/-- **Decoding is inverse to writing.** No two opcodes are written as one word. -/
@[simp] theorem ofWord?_word (o : Opcode) : ofWord? o.word = some o := by
  have h : ∀ o ∈ all, ofWord? o.word = some o := by decide +kernel
  exact h o (mem_all o)

end Opcode

end Pictograph
