import Pictograph.Hexadecimal

/-!
# Symbols

A symbol is one 32-bit code. The source language spells its constructs, operators and names with
pictographs, so a symbol nearly always is a Unicode scalar value; nothing requires it to be one, and
the two ways of showing a symbol therefore fall back to its code.
-/

namespace Pictograph

/-- One 32-bit symbol code. -/
structure Symbol where
  /-- The raw code. -/
  code : UInt32
deriving DecidableEq, Inhabited

namespace Symbol

/-- The character the symbol stands for, if its code is a Unicode scalar value. -/
def char? (s : Symbol) : Option Char :=
  if h : s.code.isValidChar then some ⟨s.code, h⟩ else none

/-- The text of a symbol in messages: its character, or its code in upper-case hexadecimal. -/
def text (s : Symbol) : String :=
  match s.char? with
  | some c => c.toString
  | none => "U+" ++ Hexadecimal.upper 4 s.code.toNat

/-- A rendering that shows the code next to the character. -/
def inspect (s : Symbol) : String :=
  match s.char? with
  | some c => "Symbol(" ++ c.toString ++ " U+" ++ Hexadecimal.upper 4 s.code.toNat ++ ")"
  | none => "Symbol(0x" ++ Hexadecimal.lower 1 s.code.toNat ++ ")"

end Symbol

end Pictograph
