import Pictograph.Symbol

/-!
# The fixed vocabulary

The symbols with a meaning of their own outside the constructs: the marks of type annotations, the
names of the built-in types and the primitive operators. A symbol may play several parts; `➡` is the
return arrow of an annotation and the comparison "greater or equal", `🍨` opens a list literal and
names the list class.
-/

namespace Pictograph.Vocabulary

/-! ## Type annotations -/

/-- The mark `🍬` makes the annotated type optional. -/
def optionalMark : Symbol := ⟨0x1F36C⟩
/-- The mark `🔶` precedes an explicit namespace. -/
def namespaceMark : Symbol := ⟨0x1F536⟩
/-- The mark `🐚` precedes a generic argument. -/
def genericMark : Symbol := ⟨0x1F41A⟩
/-- The arrow `➡` precedes a return type. -/
def returnArrow : Symbol := ⟨0x27A1⟩

/-- Truth values, `👌`. -/
def boolean : Symbol := ⟨0x1F44C⟩
/-- Integers, `🚂`. -/
def integer : Symbol := ⟨0x1F682⟩
/-- Floating point numbers, `🚀`. -/
def double : Symbol := ⟨0x1F680⟩
/-- Symbols as values, `🔣`. -/
def symbol : Symbol := ⟨0x1F523⟩
/-- The type of every value, `⚪`. -/
def anything : Symbol := ⟨0x26AA⟩
/-- The type of every class instance, `🔵`. -/
def anyObject : Symbol := ⟨0x1F535⟩
/-- The type without a proper value, `✨`. -/
def nothingness : Symbol := ⟨0x2728⟩

/-! ## Declared names -/

/-- The namespace of unqualified names, `🔴`. -/
def defaultNamespace : Symbol := ⟨0x1F534⟩
/-- The string class, `🔡`. -/
def stringClass : Symbol := ⟨0x1F521⟩
/-- The list class, `🍨`. -/
def listClass : Symbol := ⟨0x1F368⟩
/-- The dictionary class, `🍯`. -/
def dictionaryClass : Symbol := ⟨0x1F36F⟩
/-- The protocol of what can be iterated, `🔂`. -/
def enumerableProtocol : Symbol := ⟨0x1F502⟩

/-! ## Primitive operators -/

/-- Negation of a truth value, `❎`. -/
def negation : Symbol := ⟨0x274E⟩
/-- Disjunction, `🎉`. -/
def disjunction : Symbol := ⟨0x1F389⟩
/-- Conjunction, `🎊`. -/
def conjunction : Symbol := ⟨0x1F38A⟩
/-- Addition, `➕`. -/
def plus : Symbol := ⟨0x2795⟩
/-- Subtraction, `➖`. -/
def minus : Symbol := ⟨0x2796⟩
/-- Multiplication, `✖`. -/
def times : Symbol := ⟨0x2716⟩
/-- Division, `➗`. -/
def divide : Symbol := ⟨0x2797⟩
/-- Remainder of a division, `🚮`. -/
def remainder : Symbol := ⟨0x1F6AE⟩
/-- Less than, `◀`. -/
def less : Symbol := ⟨0x25C0⟩
/-- Greater than, `▶`. -/
def greater : Symbol := ⟨0x25B6⟩
/-- Less than or equal, `⬅`. -/
def lessOrEqual : Symbol := ⟨0x2B05⟩
/-- Greater than or equal, `➡`. -/
def greaterOrEqual : Symbol := ⟨0x27A1⟩
/-- Equality, `😛`. -/
def equal : Symbol := ⟨0x1F61B⟩

end Pictograph.Vocabulary
