import Pictograph.Code.Chunk

/-!
# Writing code

The assembler appends words to a chunk. Some words depend on code that is written later: the opcode
of a call on the type of its receiver, the size of a block on its contents. Such a word is reserved
when its place comes and filled once its value is known.

Reservations are nested like the constructs that make them, so the only one that may be filled is
the innermost one that is open. Filling any other is refused.
-/

namespace Pictograph

/-- A reserved word that takes a value or an opcode. -/
structure Hole where
  /-- Where the word is. -/
  offset : Nat
deriving DecidableEq

/-- A reserved word that takes the number of words between it and the place of filling. -/
structure CountHole where
  /-- Where the word is. -/
  offset : Nat
deriving DecidableEq

/-- A chunk being written. -/
structure Assembler where
  /-- What is written so far, with zeros in the reserved words. -/
  chunk : Chunk := .empty
  /-- The offsets of the reserved words that are open, the innermost first. -/
  holes : List Nat := []
  /-- The source line that words are written for. -/
  line : Nat := 1
deriving DecidableEq

namespace Assembler

/-- The assembler before the first word. -/
def start : Assembler := {}

/-- Makes `line` the source line of the words that follow. -/
def atLine (a : Assembler) (line : Nat) : Assembler := { a with line }

/-! ## Appending -/

/-- Appends an opcode. -/
def opcode (a : Assembler) (op : Opcode) : Assembler :=
  { a with chunk := a.chunk.pushOpcode op a.line }

/-- Appends an operand. -/
def word (a : Assembler) (w : UInt32) : Assembler :=
  { a with chunk := a.chunk.pushWord w a.line }

/-- Appends a 64-bit operand. -/
def wide (a : Assembler) (value : UInt64) : Assembler :=
  { a with chunk := a.chunk.pushWide value a.line }

/-! ## Reserving -/

/-- Appends a reserved word. -/
def appendHole (a : Assembler) : Assembler :=
  { a.word 0 with holes := a.chunk.size :: a.holes }

/-- Reserves a word for a value or an opcode. -/
def reserve (a : Assembler) : Hole × Assembler :=
  (⟨a.chunk.size⟩, a.appendHole)

/-- Reserves a word for a count. -/
def reserveCount (a : Assembler) : CountHole × Assembler :=
  (⟨a.chunk.size⟩, a.appendHole)

/-! ## Filling -/

/-- Closes the innermost reservation, which has to be the one at `offset`, by writing to it. -/
def close (a : Assembler) (offset : Nat) (write : Chunk → Nat → Option Chunk) :
    Option Assembler :=
  match a.holes with
  | innermost :: holes =>
    if innermost = offset then
      (write a.chunk offset).map fun chunk ↦ { a with chunk, holes }
    else
      none
  | [] => none

/-- Fills a reserved word with a value. -/
def fill? (a : Assembler) (hole : Hole) (w : UInt32) : Option Assembler :=
  a.close hole.offset (·.patch? · w)

/-- Fills a reserved word with an opcode. -/
def fillOpcode? (a : Assembler) (hole : Hole) (op : Opcode) : Option Assembler :=
  a.close hole.offset (·.patchOpcode? · op)

/-- Fills a reserved word with the number of words that were written after it. -/
def fillCount? (a : Assembler) (hole : CountHole) : Option Assembler :=
  a.close hole.offset (·.patch? · (UInt32.ofNat (a.chunk.size - hole.offset - 1)))

/-! ## Procedures -/

/-- Ends a procedure and starts the next one. Reservations that are still open belong to a procedure
that was given up, and are dropped. -/
def reset (a : Assembler) : Chunk × Assembler := (a.chunk, start)

/-- The finished chunk. Nothing may be open. -/
def finish? (a : Assembler) : Option Chunk :=
  if a.holes.isEmpty then some a.chunk else none

end Assembler

end Pictograph
