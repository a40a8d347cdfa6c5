import Mathlib.Init
import Pictograph.Code.StringTable

/-!
# String pools

A string table finds a string by going through all of them. A pool has an index beside the strings,
in which the position of a string is looked up. The strings and the index say the same as long as
every operation changes both of them. Positions are operands of one word.
-/

namespace Pictograph

/-- The distinct string literals met so far, and an index of them. -/
structure StringPool where
  /-- The literals in the order of their first occurrence. -/
  strings : Array String := #[]
  /-- The position of each literal. -/
  index : Std.HashMap String UInt32 := ∅

namespace StringPool

/-- The pool without strings. -/
def empty : StringPool := {}

/-- The position of a string, which is appended and indexed if it is new, and the pool with it. -/
def intern (p : StringPool) (s : String) : UInt32 × StringPool :=
  match p.index[s]? with
  | some position => (position, p)
  | none =>
    let position := UInt32.ofNat p.strings.size
    (position, ⟨p.strings.push s, p.index.insert s position⟩)

/-- The string at a position. -/
def get? (p : StringPool) (position : UInt32) : Option String :=
  p.strings[position.toNat]?

/-- The pool without its strings. -/
def clear (p : StringPool) : StringPool :=
  { p with strings := #[], index := ∅ }

/-- The strings in order, and the pool emptied of them. -/
def take (p : StringPool) : List String × StringPool :=
  (p.strings.toList, { p with index := ∅, strings := #[] })

end StringPool

end Pictograph
