/-!
# String tables

The string literals of a program are stored once each. Code refers to a literal by the position of
its first occurrence.
-/

namespace Pictograph

/-- The distinct string literals met so far. -/
structure StringTable where
  /-- The literals in the order of their first occurrence. -/
  strings : Array String := #[]
deriving DecidableEq

namespace StringTable

/-- The table without strings. -/
def empty : StringTable := {}

/-- The number of strings. -/
def size (t : StringTable) : Nat := t.strings.size

/-- The position of a string, which is appended if it is new, and the table with it. -/
def intern (t : StringTable) (s : String) : Nat × StringTable :=
  match t.strings.findIdx? (· == s) with
  | some index => (index, t)
  | none => (t.strings.size, ⟨t.strings.push s⟩)

/-- The string at a position. -/
def get? (t : StringTable) (index : Nat) : Option String :=
  t.strings[index]?

/-- The strings in order, and the table emptied of them. -/
def take (t : StringTable) : List String × StringTable :=
  (t.strings.toList, empty)

end StringTable

end Pictograph
