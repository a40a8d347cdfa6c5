import Pictograph.Identity.Digest
import Pictograph.Vocabulary

/-!
# Type identities

A declared type is known by a 64-bit identity computed from its namespace and its name alone, so it
can be referred to before it is declared, and the same declaration always gets the same identity.
-/

namespace Pictograph

/-- The identity of a class, a protocol or an enumeration. -/
structure TypeId where
  /-- The 64 bits. -/
  bits : UInt64
deriving DecidableEq, Inhabited

namespace TypeId

/-- Sets the identities of types apart from other uses of the digest. -/
def domain : UInt64 := 0x2FAC10B63A6CC57C

/-- The namespace and the name side by side in one word, the namespace in the low half. -/
def block (space name : Symbol) : UInt64 :=
  space.code.toUInt64 ||| (name.code.toUInt64 <<< 32)

/-- The identity of the type called `name` in the namespace `space`. -/
def of (space name : Symbol) : TypeId :=
  ⟨domain ^^^ Digest.ofWord (block space name)⟩

/-- The identity that stands for no type. -/
def absent : TypeId := ⟨0⟩

/-- The text of an identity: sixteen hexadecimal digits. -/
def text (id : TypeId) : String :=
  "0x" ++ Hexadecimal.lower 16 id.bits.toNat

/-- A rendering that says what the number is. -/
def inspect (id : TypeId) : String :=
  "TypeHash(" ++ id.text ++ ")"

/-! ## The standard types -/

/-- The string class. -/
def string : TypeId := of Vocabulary.defaultNamespace Vocabulary.stringClass
/-- The list class. -/
def list : TypeId := of Vocabulary.defaultNamespace Vocabulary.listClass
/-- The dictionary class, whose keys are strings. -/
def dictionary : TypeId := of Vocabulary.defaultNamespace Vocabulary.dictionaryClass
/-- The protocol of what can be iterated. -/
def enumerable : TypeId := of Vocabulary.defaultNamespace Vocabulary.enumerableProtocol

end TypeId

end Pictograph
