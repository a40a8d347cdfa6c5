import Pictograph.Proofs.Compilation.PairedCompilations
import Pictograph.Proofs.Compilation.Returns

/-!
# The layout of the source does not matter

The same body may be laid out in many ways: each token keeps what it says and stands at another
place. What the body is compiled into does not depend on that. Places show up again where they are
reported, in diagnoses, warnings and the lines of the code; everything else is the same, words,
opcodes, headers and strings, and so is the cause if the body is rejected.

Layouts are transcriptions that keep all names and let any two places correspond.

## Main definitions

* `unplaced`: what a body is compiled into, apart from places and lines.

## Main results

* `compile_unplaced`: bodies that differ in their layout alone are compiled into the same.
-/

namespace Pictograph

/-! ## Leaving out places -/

/-- A fault without its place. -/
def Fault.unplaced : Fault → Fault
  | diagnosed d => .diagnosed { d with span := .nowhere }
  | fault => fault

/-- A warning without its place. -/
def Warning.unplaced (w : Warning) : Warning := { w with span := .nowhere }

/-- A session without the places of its warnings. -/
def Session.unplaced (s : Session) : Session := { s with warnings := s.warnings.map (·.unplaced) }

/-- A chunk without the lines that its words were written for. -/
def Chunk.unplaced (c : Chunk) : Chunk := ⟨c.cells.map ({ · with line := 0 })⟩

/-- A compiled procedure without the lines of its code. -/
def Record.unplaced (r : Record) : Record := { r with code := r.code.unplaced }

/-- What a body is compiled into, apart from places and lines. -/
def unplaced : Except Fault Record × Session → Except Fault Record × Session
  | (.ok record, session) => (.ok record.unplaced, session.unplaced)
  | (.error fault, session) => (.error fault.unplaced, session.unplaced)

/-! ## Layouts -/

/-- The same body, laid out in any other way. -/
def Transcription.layout : Transcription where
  earlier := []
  name := id
  place _ _ := True
  line _ _ := True
  name_injective := Function.injective_id
  line_of_place _ := trivial

/-- Tokens that say the same are another layout. -/
theorem forall₂_alike_layout {tokens tokens' : List Token}
    (h : tokens'.map (·.lexeme) = tokens.map (·.lexeme)) :
    List.Forall₂ (Token.Alike .layout) tokens tokens' := by
  have hlexemes : List.Forall₂ (fun t' t ↦ t'.lexeme = t.lexeme) tokens' tokens := by
    rwa [← List.forall₂_eq_eq_eq, List.forall₂_map_left_iff, List.forall₂_map_right_iff] at h
  exact hlexemes.flip.imp fun t t' ht ↦ ⟨ht.trans t.lexeme.rename_id.symm, trivial⟩

theorem Session.alike_layout (s : Session) : s.Alike .layout s :=
  ⟨rfl, _, rfl, List.forall₂_same.mpr fun w _ ↦ ⟨w.remark.rename_id.symm, trivial⟩⟩

theorem Fault.Alike.unplaced_eq {e e' : Fault} (h : e.Alike .layout e') :
    e'.unplaced = e.unplaced := by
  cases h with
  | diagnosed hc _ => rw [hc.eq, Fault.unplaced, Fault.unplaced]
  | misfilled => rfl
  | overflowed => rfl

theorem Session.Alike.unplaced_eq {s s' : Session} (h : s.Alike .layout s') :
    s'.unplaced = s.unplaced := by
  have hwarnings : s'.warnings.map (·.unplaced) = s.warnings.map (·.unplaced) := by
    obtain ⟨_, rfl, hwarnings⟩ := h.warnings
    rw [← Array.toList_inj, Array.toList_map, Array.toList_map]
    refine map_eq_of_forall₂ hwarnings fun w w' hw ↦ ?_
    have hremark : w'.remark = w.remark := hw.remark.trans w.remark.rename_id
    rw [Warning.unplaced, Warning.unplaced, hremark]
  rw [Session.unplaced, Session.unplaced, hwarnings, h.strings]

theorem Chunk.Alike.unplaced_eq {c c' : Chunk} (h : c.Alike .layout c') :
    c'.unplaced = c.unplaced := by
  refine congrArg Chunk.mk ?_
  rw [← Array.toList_inj, Array.toList_map, Array.toList_map]
  refine map_eq_of_forall₂ h fun cell cell' hcell ↦ ?_
  rw [hcell.word, hcell.mark]

theorem Record.Alike.unplaced_eq {r r' : Record} (h : r.Alike .layout r') :
    r'.unplaced = r.unplaced := by
  rw [Record.unplaced, Record.unplaced, h.code.unplaced_eq, h.header]

/-! ## Compilation -/

/-- **The layout of the source does not matter.** A body is compiled in any two layouts. Both are
accepted or both rejected. If they are accepted, the records are the same apart from the lines of
their code; if they are rejected, the faults are the same apart from their places. The same strings
are met, and the warnings are the same apart from their places. -/
theorem compile_unplaced (cat : Catalogue) (options : Options) (session : Session) (c : Class)
    (m : Member) {tokens tokens' : List Token}
    (h : tokens'.map (·.lexeme) = tokens.map (·.lexeme)) :
    unplaced (compile cat options session c m tokens')
      = unplaced (compile cat options session c m tokens) := by
  obtain ⟨hresult, hsession⟩ := Transcription.alike_compile cat options c m (fun _ ↦ rfl) trivial
    trivial session.alike_layout (forall₂_alike_layout h)
  generalize compile cat options session c m tokens = x,
    compile cat options session c m tokens' = x' at hresult hsession ⊢
  obtain ⟨result, s⟩ := x
  obtain ⟨result', s'⟩ := x'
  cases hresult with
  | error he => simp only [unplaced, he.unplaced_eq, hsession.unplaced_eq]
  | ok hrecord => simp only [unplaced, hrecord.unplaced_eq, hsession.unplaced_eq]

namespace Sample

/-- A body with each of its tokens on a line of its own. -/
def spread (tokens : List Token) : List Token :=
  tokens.zipIdx.map fun (t, i) ↦ { t with span := ⟨i + 1, 1, 1⟩ }

end Sample

/-- A body is laid out with each token on a line of its own. The code is for other lines then, and
the same otherwise. -/
theorem compile_unplaced_sample :
    (Sample.spread Sample.returnTwice).map (·.lexeme) = Sample.returnTwice.map (·.lexeme)
    ∧ unplaced (compile Sample.tellerCatalogue {} .start Sample.tellerClass Sample.tell
        (Sample.spread Sample.returnTwice))
      = unplaced (compile Sample.tellerCatalogue {} .start Sample.tellerClass Sample.tell
        Sample.returnTwice)
    ∧ (compile Sample.tellerCatalogue {} .start Sample.tellerClass Sample.tell
        (Sample.spread Sample.returnTwice)).1.toOption.isSome
    ∧ (compile Sample.tellerCatalogue {} .start Sample.tellerClass Sample.tell
        (Sample.spread Sample.returnTwice)).1
      ≠ (compile Sample.tellerCatalogue {} .start Sample.tellerClass Sample.tell
        Sample.returnTwice).1 := by
  have h : (Sample.spread Sample.returnTwice).map (·.lexeme)
      = Sample.returnTwice.map (·.lexeme) := by
    decide +kernel
  exact ⟨h, compile_unplaced _ _ _ _ _ h, by decide +kernel, by decide +kernel⟩

end Pictograph
