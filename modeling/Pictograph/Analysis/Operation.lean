import Pictograph.Code.Opcode
import Pictograph.Ty.Basic

/-!
# Operations on primitive values

Values without a dispatch table have operators instead of methods. The type of the receiver and the
symbol of the operator determine the instruction. Equality is defined on every receiver that gets
here and compares with a value of the same type.
-/

namespace Pictograph

/-- An operator with its types. -/
structure Operation where
  /-- The instruction. -/
  operator : Operator
  /-- The type of the second operand, if there is one. -/
  operand? : Option Ty
  /-- The type of the result. -/
  result : Ty
deriving DecidableEq

namespace Operation

/-- The symbols of the operators that both kinds of number have. -/
def arithmeticSymbols : List (Symbol × Arithmetic) :=
  [(Vocabulary.minus, .subtract), (Vocabulary.plus, .add), (Vocabulary.times, .multiply),
    (Vocabulary.divide, .divide), (Vocabulary.less, .less), (Vocabulary.greater, .greater),
    (Vocabulary.lessOrEqual, .lessOrEqual), (Vocabulary.greaterOrEqual, .greaterOrEqual)]

/-- The result of an operator on numbers of type `number`. -/
def arithmeticResult (number : Ty) : Arithmetic → Ty
  | .subtract | .add | .multiply | .divide => number
  | .less | .greater | .lessOrEqual | .greaterOrEqual => .boolean

/-- The operators on truth values. -/
def onBooleans? (symbol : Symbol) : Option Operation :=
  if symbol = Vocabulary.negation then
    some ⟨.not, none, .boolean⟩
  else
    ([(Vocabulary.disjunction, Operator.or), (Vocabulary.conjunction, .and),
      (Vocabulary.equal, .equal)].lookup symbol).map (⟨·, some .boolean, .boolean⟩)

/-- The operators on integers. -/
def onIntegers? (symbol : Symbol) : Option Operation :=
  if symbol = Vocabulary.equal then
    some ⟨.equal, some .integer, .boolean⟩
  else if symbol = Vocabulary.remainder then
    some ⟨.remainder, some .integer, .integer⟩
  else
    (arithmeticSymbols.lookup symbol).map fun operation ↦
      ⟨.onIntegers operation, some .integer, arithmeticResult .integer operation⟩

/-- The operators on floating point numbers. -/
def onDoubles? (symbol : Symbol) : Option Operation :=
  if symbol = Vocabulary.equal then
    some ⟨.equalDoubles, some .double, .boolean⟩
  else
    (arithmeticSymbols.lookup symbol).map fun operation ↦
      ⟨.onDoubles operation, some .double, arithmeticResult .double operation⟩

/-- The operation that an operator stands for on a receiver. -/
def find? (receiver : Ty) (symbol : Symbol) : Option Operation :=
  match receiver.kind with
  | .boolean => onBooleans? symbol
  | .integer => onIntegers? symbol
  | .double => onDoubles? symbol
  | _ =>
    if symbol = Vocabulary.equal then some ⟨.equal, some receiver, .boolean⟩ else none

end Operation

end Pictograph
