import Pictograph.Proofs.Analysis.PairedConstructs
import Pictograph.Proofs.Compilation.Emitted

/-!
# The compilation of a transcribed body

A body and its transcription are compiled side by side. Both are accepted, with the same header and
with code that differs in its lines, or both are rejected, for causes that correspond.

## Main definitions

* `Record.Alike`: compiled procedures that correspond.

## Main results

* `Transcription.alike_compile`: a body and its transcription are compiled alike.
-/

namespace Pictograph

variable {τ : Transcription}

/-- A compiled procedure and the one that it corresponds to. -/
structure Record.Alike (τ : Transcription) (r r' : Record) : Prop where
  header : r'.header = r.header
  code : r.code.Alike τ r'.code

namespace Transcription

/-- The ends of two analyses are made into records that correspond, or refused alike. -/
theorem alike_finishRecord (m : Member) (summary : Summary) {s s' : State} (h : s.Alike τ s') :
    τ.Outcomes (Record.Alike τ) (finishRecord m summary s) (finishRecord m summary s') := by
  have hpeek := h.cursor.peek
  rw [finishRecord, finishRecord, Assembler.finish?, Assembler.finish?, h.assembler.holes]
  generalize s.cursor.peek = token?, s'.cursor.peek = token?' at hpeek ⊢
  cases hpeek with
  | some ht =>
    dsimp only
    rw [ht.lexeme]
    exact .error (.diagnosed (Lexeme.refused_rename _ _ _) ht.span)
  | none =>
    cases s.assembler.holes.isEmpty with
    | false => exact .error .misfilled
    | true => exact .ok ⟨rfl, h.assembler.chunk⟩

variable {session session' : Session} {tokens tokens' : List Token}

/-- **A body and its transcription are compiled alike**, where all names are kept. -/
theorem alike_compile (cat : Catalogue) (options : Options) (c : Class) (m : Member)
    (hname : ∀ x, τ.name x = x) (hline : τ.line 1 1) (hnowhere : τ.place .nowhere .nowhere)
    (hsession : session.Alike τ session') (htokens : List.Forall₂ (Token.Alike τ) tokens tokens') :
    τ.Outcomes (Record.Alike τ) (compile cat options session c m tokens).1
        (compile cat options session' c m tokens').1
      ∧ (compile cat options session c m tokens).2.Alike τ
        (compile cat options session' c m tokens').2 := by
  rw [compile, compile]
  by_cases hm : m.isNative
  · rw [if_pos hm, if_pos hm]
    exact ⟨.ok ⟨rfl, .nil⟩, hsession⟩
  rw [if_neg hm, if_neg hm]
  cases hfields : cat.fieldsFor c m with
  | error fault =>
    obtain ⟨cause, rfl⟩ := Catalogue.fieldsFor_error hfields
    have hcause : cause.rename τ.name = cause := by
      rw [show τ.name = id from funext hname, Cause.rename_id]
    have hfault := Fault.Alike.renamed cause hnowhere
    rw [hcause] at hfault
    exact ⟨.error hfault, hsession⟩
  | ok fields =>
    have hend := ends_analyse_same (.ofMember cat options c m) m.arguments fields hname hline
      hsession htokens fun _ ↦ hnowhere
    dsimp only
    generalize analyse _ _ _ session _ = r, analyse _ _ _ session' _ = r' at hend ⊢
    cases hend with
    | error he hs => exact ⟨.error he, hs.session⟩
    | ok hs _ hsummary =>
      subst hsummary
      exact ⟨alike_finishRecord m _ hs, hs.session⟩

end Transcription

end Pictograph
