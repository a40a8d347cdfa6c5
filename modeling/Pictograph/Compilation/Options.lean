import Pictograph.Slot

/-!
# Options

Switches for the analysis of bodies.
-/

namespace Pictograph

/-- How bodies are analysed. -/
structure Options where
  /-- Whether statements after an unconditional return are analysed. In closures they always are, so
  that the counts in the code match the body the interpreter receives. -/
  compilesDeadCode : Bool := true
  /-- Whether to warn about variables that could be frozen. -/
  recommendsFrozen : Bool := true
  /-- How many slots the frame of one body may have. -/
  slotLimit : Nat := Slot.count
deriving DecidableEq

namespace Options

/-- The options with or without dead code. -/
def withDeadCode (o : Options) (compilesDeadCode : Bool) : Options :=
  { o with compilesDeadCode }

/-- The options with or without recommendations. -/
def withRecommendations (o : Options) (recommendsFrozen : Bool) : Options :=
  { o with recommendsFrozen }

/-- The options with another slot limit. There never are more slots than slot numbers. -/
def withSlotLimit (o : Options) (limit : Nat) : Options :=
  { o with slotLimit := min limit Slot.count }

end Options

end Pictograph
