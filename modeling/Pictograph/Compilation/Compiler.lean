import Pictograph.Compilation.Procedure

/-!
# Compilers

A compiler compiles the procedures of one run, one after the other. It writes all of them with one
assembler. A body that is rejected leaves there what was written so far, with the reservations that
were open and the line it stopped at. So the assembler is cleared before a body is analysed, and not
only after one was accepted.
-/

namespace Pictograph

/-- A compiler between two procedures of a run. -/
structure Compiler where
  /-- The declared types. -/
  catalogue : Catalogue
  /-- The switches for every body. -/
  options : Options := {}
  /-- The strings and the warnings of the run. -/
  session : Session := .start
  /-- What the procedures are written with. -/
  assembler : Assembler := .start

namespace Compiler

/-- Drops what is written. -/
def clear (k : Compiler) : Compiler :=
  { k with assembler := k.assembler.reset.2 }

/-- The compiler after an analysis that ended in a state. -/
def after (k : Compiler) (s : State) : Compiler :=
  { k with session := s.session, assembler := s.assembler }

/-- The state in which a compiler begins the analysis of a body. -/
def begin (k : Compiler) (fields : Option Scope) (tokens : List Token) : State where
  cursor := .start tokens
  assembler := k.assembler
  session := k.session
  environment := .start fields
  frame := {}

/-- Compiles a member of a class from the tokens of its body. -/
def compile (k : Compiler) (c : Class) (m : Member) (tokens : List Token) :
    Except Fault Record × Compiler :=
  if m.isNative then
    (.ok ⟨m.header 0, .empty⟩, k)
  else
    let k := k.clear
    match k.catalogue.fieldsFor c m with
    | .error fault => (.error fault, k)
    | .ok fields =>
      match Analysis.body (.ofMember k.catalogue k.options c m) (Analysis.expression tokens.length)
          m.arguments [] 0 (k.begin fields tokens) with
      | .error fault s => (.error fault, k.after s)
      | .ok summary s =>
        match finishRecord m summary s with
        | .error fault => (.error fault, k.after s)
        | .ok record => (.ok record, (k.after s).clear)

end Compiler

end Pictograph
