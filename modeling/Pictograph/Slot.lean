/-!
# Slots

A variable is stored in a numbered slot: local variables in the frame of the procedure or closure
that runs, fields in the object. Slot numbers are a single byte in the running program, so there are
256 of each.
-/

namespace Pictograph

/-- Where a variable is stored. -/
inductive Storage where
  /-- In the frame of the running body. -/
  | frame
  /-- In the instance. -/
  | object
deriving DecidableEq

/-- A place that holds the value of a variable. -/
structure Slot where
  /-- Where the slot is. -/
  storage : Storage
  /-- Its number there. -/
  id : Nat
deriving DecidableEq

/-- How many slot numbers there are. -/
def Slot.count : Nat := 256

end Pictograph
