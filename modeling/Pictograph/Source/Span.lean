/-!
# Source positions

Tokens arrive with the place they were read from. The analysis never computes with positions; it
copies them into diagnostics and, of the line alone, into the line table of the code.
-/

namespace Pictograph

/-- Where a piece of source starts, and how long it is. -/
structure Span where
  /-- The line, counted from one. -/
  line : Nat
  /-- The column, counted from one in code points. -/
  column : Nat
  /-- The length in code points. -/
  length : Nat
deriving DecidableEq

namespace Span

/-- The position of what has no place in the source. -/
def nowhere : Span := ⟨0, 0, 0⟩

instance : Inhabited Span := ⟨nowhere⟩

/-- Whether the span covers no code point. -/
def isEmpty (s : Span) : Bool :=
  s.length == 0

/-- The text of a position in messages. The length is not shown. -/
def text (s : Span) : String :=
  toString s.line ++ ":" ++ toString s.column

end Span

end Pictograph
