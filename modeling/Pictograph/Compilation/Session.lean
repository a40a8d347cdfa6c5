import Pictograph.Code.StringTable
import Pictograph.Diagnostic

/-!
# Sessions

A session holds what the procedures of one run share: the table of string literals and the warnings.
Both grow while procedures are compiled, also by those that are rejected in the end.
-/

namespace Pictograph

/-- The shared results of one run. -/
structure Session where
  /-- The string literals. -/
  strings : StringTable := .empty
  /-- The warnings in the order they were given. -/
  warnings : Array Warning := #[]
deriving DecidableEq

namespace Session

/-- A session before the first procedure. -/
def start : Session := {}

/-- The position of a string in the table, and the session that has it there. -/
def intern (s : Session) (content : String) : Nat × Session :=
  let (index, strings) := s.strings.intern content
  (index, { s with strings })

/-- Records a warning. -/
def warn (s : Session) (w : Warning) : Session :=
  { s with warnings := s.warnings.push w }

/-- Ends the run: its strings, its warnings and an empty session. -/
def finish (s : Session) : List String × List Warning × Session :=
  (s.strings.take.1, s.warnings.toList, start)

end Session

end Pictograph
