import Mathlib.Init
import Pictograph.Code.Assembler

/-!
# Code in three tables

A chunk knows three things about each word: what it is, which source line it was written for, and
which opcode was written there, if one was. It can be kept as one table of cells, or in three tables
of their own: the words, the lines, and the opcodes by their offsets. Only the first two are
parallel; the third has entries for some offsets, and a write that forgets one of the tables leaves
them apart.

This module keeps the three tables, and writes to them one at a time. Open reservations are kept in
the order in which they were made.
-/

namespace Pictograph

/-- The code of one procedure, in three tables. -/
structure Tables where
  /-- The words in order. -/
  words : Array UInt32 := #[]
  /-- The source line of each word. -/
  lines : Array Nat := #[]
  /-- The opcodes that were written, by their offsets. -/
  opcodes : Std.TreeMap Nat Opcode := ∅

namespace Tables

/-- Appends an operand. -/
def pushWord (t : Tables) (word : UInt32) (line : Nat) : Tables :=
  { t with words := t.words.push word, lines := t.lines.push line }

/-- Appends an opcode, which is recorded for the offset of the word that comes next. -/
def pushOpcode (t : Tables) (op : Opcode) (line : Nat) : Tables :=
  { t with opcodes := t.opcodes.insert t.words.size op }.pushWord op.word line

/-- Appends a 64-bit operand, the high word first. -/
def pushWide (t : Tables) (value : UInt64) (line : Nat) : Tables :=
  (t.pushWord (Chunk.highWord value) line).pushWord (Chunk.lowWord value) line

/-- Overwrites the word at an offset. There must be one. -/
def patch? (t : Tables) (offset : Nat) (word : UInt32) : Option Tables :=
  if h : offset < t.words.size then
    some { t with words := t.words.set offset word }
  else
    none

/-- Overwrites the word at an offset with an opcode, and records it. -/
def patchOpcode? (t : Tables) (offset : Nat) (op : Opcode) : Option Tables :=
  (t.patch? offset op.word).map fun t ↦ { t with opcodes := t.opcodes.insert offset op }

end Tables

/-- Three tables being written. -/
structure Writer where
  /-- What is written so far, with zeros in the reserved words. -/
  tables : Tables := {}
  /-- The offsets of the reserved words that are open, the innermost last. -/
  opened : Array Nat := #[]
  /-- The source line that words are written for. -/
  line : Nat := 1

namespace Writer

/-- The writer before the first word. -/
def start : Writer := {}

/-- Reserves a word. -/
def appendHole (w : Writer) : Writer :=
  { w with opened := w.opened.push w.tables.words.size, tables := w.tables.pushWord 0 w.line }

/-- Takes the innermost reservation, which has to be the one at `offset`, and writes to it. -/
def close (w : Writer) (offset : Nat) (write : Tables → Nat → Option Tables) : Option Writer :=
  if w.opened.back? = some offset then
    (write w.tables offset).map fun tables ↦ { w with tables, opened := w.opened.pop }
  else
    none

/-- Fills a reserved word with a value. -/
def fill? (w : Writer) (hole : Hole) (word : UInt32) : Option Writer :=
  w.close hole.offset (·.patch? · word)

/-- Fills a reserved word with an opcode. -/
def fillOpcode? (w : Writer) (hole : Hole) (op : Opcode) : Option Writer :=
  w.close hole.offset (·.patchOpcode? · op)

/-- Fills a reserved word with the number of words that were written after it. -/
def fillCount? (w : Writer) (hole : CountHole) : Option Writer :=
  w.close hole.offset (·.patch? · (UInt32.ofNat (w.tables.words.size - hole.offset - 1)))

end Writer

end Pictograph
