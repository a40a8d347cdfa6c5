import Pictograph.Code.Opcode

/-!
# Code chunks

A chunk is the code of one procedure. Each word knows the source line it was written for, and
whether it was written as an opcode. With the marks the opcodes of a chunk can be listed without
decoding operands; a mark stays when the word under it is overwritten with a plain word.
-/

namespace Pictograph

/-- One word of code. -/
structure Cell where
  /-- The word. -/
  word : UInt32
  /-- The source line it was written for. -/
  line : Nat
  /-- The opcode that was written here, if one was. -/
  mark : Option Opcode
deriving DecidableEq

/-- The code of one procedure. -/
structure Chunk where
  /-- The words in order. -/
  cells : Array Cell := #[]
deriving DecidableEq

namespace Chunk

/-- The chunk without words. -/
def empty : Chunk := {}

/-- The number of words, which is the offset of the next one. -/
def size (c : Chunk) : Nat := c.cells.size

/-! ## Writing -/

/-- Appends an operand. -/
def pushWord (c : Chunk) (word : UInt32) (line : Nat) : Chunk :=
  ⟨c.cells.push ⟨word, line, none⟩⟩

/-- Appends an opcode. -/
def pushOpcode (c : Chunk) (op : Opcode) (line : Nat) : Chunk :=
  ⟨c.cells.push ⟨op.word, line, some op⟩⟩

/-- The high word of a 64-bit operand. -/
def highWord (value : UInt64) : UInt32 := (value >>> 32).toUInt32

/-- The low word of a 64-bit operand. -/
def lowWord (value : UInt64) : UInt32 := value.toUInt32

/-- Appends a 64-bit operand, the high word first. -/
def pushWide (c : Chunk) (value : UInt64) (line : Nat) : Chunk :=
  (c.pushWord (highWord value) line).pushWord (lowWord value) line

/-- Overwrites the word at an offset. There must be one. -/
def patch? (c : Chunk) (offset : Nat) (word : UInt32) : Option Chunk :=
  if h : offset < c.cells.size then
    some ⟨c.cells.set offset { c.cells[offset] with word }⟩
  else
    none

/-- Overwrites the word at an offset with an opcode, and marks it. -/
def patchOpcode? (c : Chunk) (offset : Nat) (op : Opcode) : Option Chunk :=
  if h : offset < c.cells.size then
    some ⟨c.cells.set offset { c.cells[offset] with word := op.word, mark := some op }⟩
  else
    none

/-! ## Reading -/

/-- The words in order. -/
def words (c : Chunk) : List UInt32 := c.cells.toList.map (·.word)

/-- The line of each word. -/
def lines (c : Chunk) : List Nat := c.cells.toList.map (·.line)

/-- The word at an offset. -/
def wordAt? (c : Chunk) (offset : Nat) : Option UInt32 :=
  c.cells[offset]?.map (·.word)

/-- The line of the word at an offset. -/
def lineAt? (c : Chunk) (offset : Nat) : Option Nat :=
  c.cells[offset]?.map (·.line)

/-- The 64-bit operand that starts at an offset. -/
def wideAt? (c : Chunk) (offset : Nat) : Option UInt64 := do
  let high ← c.wordAt? offset
  let low ← c.wordAt? (offset + 1)
  return (high.toUInt64 <<< 32) ||| low.toUInt64

/-- The opcode written at an offset. -/
def opcodeAt? (c : Chunk) (offset : Nat) : Option Opcode :=
  c.cells[offset]?.bind (·.mark)

/-- The opcodes in order, operands left out. -/
def opcodes (c : Chunk) : List Opcode :=
  c.cells.toList.filterMap (·.mark)

/-- The opcodes together with their offsets. -/
def marks (c : Chunk) : List (Nat × Opcode) :=
  c.cells.toList.zipIdx.filterMap fun (cell, offset) ↦ cell.mark.map (offset, ·)

/-- The offset of the first occurrence of an opcode. -/
def find? (c : Chunk) (op : Opcode) : Option Nat :=
  c.cells.findIdx? (·.mark == some op)

/-! ## Checks on the listing -/

/-- What is left of a list of expected opcodes when each of them is matched with the first
occurrence after the match before it. -/
def unmatched : (listing expected : List Opcode) → List Opcode
  | [], expected => expected
  | _ :: _, [] => []
  | op :: listing, e :: expected =>
    if op = e then unmatched listing expected else unmatched listing (e :: expected)

/-- Whether the chunk has exactly these opcodes. -/
def hasExactly (c : Chunk) (expected : List Opcode) : Bool :=
  c.opcodes == expected

/-- Whether the chunk has these opcodes in this order, possibly with others in between. -/
def hasInOrder (c : Chunk) (expected : List Opcode) : Bool :=
  (unmatched c.opcodes expected).isEmpty

end Chunk

end Pictograph
