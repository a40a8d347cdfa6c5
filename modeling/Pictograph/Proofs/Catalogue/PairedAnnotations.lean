import Pictograph.Catalogue.Annotation
import Pictograph.Proofs.Source.Transcription

/-!
# Annotations of a transcribed body

An annotation refers to no variable, so the same type is read from a body and from its
transcription. The levels of nesting are bounded by the tokens that are left: every annotation takes
one before it turns to those inside it. So the bound is never reached.

## Main results

* `Catalogue.reads_annotated`: the same type is read from a body and from its transcription.
-/

namespace Pictograph

namespace Catalogue

open Comparison Reading

variable {τ : Transcription} {n : Nat} {read : Reading Ty}

theorem agrees_callable (hread : τ.reading.Reads n Eq read read) (fuel : Nat)
    (arguments : List Ty) :
    τ.reading.Agrees (min n fuel) Eq ( callableAnnotation read fuel arguments)
      ( callableAnnotation read fuel arguments) := by
  induction fuel generalizing arguments with
  | zero =>
    rw [Nat.min_zero]
    exact .zero
  | succ fuel ih =>
    have hread' : τ.reading.Reads (min n (fuel + 1)) Eq read read :=
      hread.mono (Nat.min_le_left _ _) fun _ _ _ h ↦ h
    refine (agrees_acceptSymbol _).bind fun closing? closing?' hclosing ↦ ?_
    refine .ite (isSome_iff_of_rel hclosing) (.pure rfl) ?_
    refine (agrees_acceptSymbol _).bind fun arrow? arrow?' harrow ↦ ?_
    refine .ite (isSome_iff_of_rel harrow) ?_ ?_
    · refine Agrees.bind_same hread'.agrees fun result ↦ ?_
      exact (reads_expectConstruct _ _).agrees.bind fun _ _ _ ↦ .pure rfl
    · refine Reads.agrees (Reads.bind_of_le (k := min n fuel) (by omega) hread' ?_)
      rintro argument _ rfl
      exact ih _

theorem agrees_genericArguments (hread : τ.reading.Reads n Eq read read) (constraints : List Ty) :
    τ.reading.Agrees n Eq (genericArguments read constraints)
      (genericArguments read constraints) := by
  induction constraints with
  | nil => exact .pure rfl
  | cons constraint constraints ih =>
    refine (agrees_acceptSymbol _).bind fun mark? mark?' hmark ↦ ?_
    refine Matches.ite (isSome_iff_of_rel hmark) ?_ ?_
    · refine Agrees.bind_same hread.agrees fun argument ↦ ?_
      exact Agrees.bind_same ih fun arguments ↦ .pure rfl
    · refine Agrees.bind_same (.pure rfl) fun argument ↦ ?_
      exact Agrees.bind_same ih fun arguments ↦ .pure rfl

theorem agrees_named (cat : Catalogue) (hread : τ.reading.Reads n Eq read read)
    (space name : Symbol) {span span' : Span} (hspan : τ.place span span') :
    τ.reading.Agrees n Eq ( cat.namedAnnotation read space name span)
      ( cat.namedAnnotation read space name span') := by
  unfold namedAnnotation
  cases cat.named? space name with
  | none => exact .throw (.renamed (.unknownType _) hspan)
  | some t =>
    dsimp only
    cases cat.classOf? t with
    | none => exact .pure rfl
    | some c =>
      refine (agrees_genericArguments hread _).bind_same fun arguments ↦ ?_
      refine (agrees_acceptSymbol _).bind fun extra? extra?' hextra ↦ ?_
      cases hextra with
      | none => exact .pure rfl
      | some hextra => exact .throw (.renamed (.typeMismatch _) hextra.span)

theorem agrees_dynamic (context : Ty) (dynamism : Dynamism) (isOptional : Bool)
    {span span' : Span} (hspan : τ.place span span') :
    τ.reading.Agrees n Eq ( dynamicAnnotation context dynamism isOptional span)
      ( dynamicAnnotation context dynamism isOptional span') := by
  have hfail (message : String) : τ.reading.Agrees n Eq
      (throw ((Cause.invalidOperation message).at span) : Reading Unit)
      (throw ((Cause.invalidOperation message).at span')) :=
    .throw (.renamed (.invalidOperation message) hspan)
  unfold dynamicAnnotation
  refine .optional Iff.rfl (hfail _) ?_
  exact .optional Iff.rfl (hfail _) (.pure rfl)

/-- An annotation takes a token before it turns to those inside it. -/
theorem reads_annotatedWithin (cat : Catalogue) (context : Ty) (fuel : Nat) (space : Symbol)
    (dynamism : Dynamism) :
    τ.reading.Reads fuel Eq (cat.annotationWithin context fuel space dynamism)
      (cat.annotationWithin context fuel space dynamism) := by
  induction fuel generalizing space dynamism with
  | zero => exact .zero
  | succ fuel ih =>
    have nested (space : Symbol) : τ.reading.Reads fuel Eq
        (Prod.fst <$> cat.annotationWithin context fuel space .forbidden)
        (Prod.fst <$> cat.annotationWithin context fuel space .forbidden) := by
      rw [map_eq_pure_bind]
      refine Reads.bind_of_le (k := fuel) (Nat.le_succ _) (ih space .forbidden) ?_
      rintro t _ rfl
      exact .pure rfl
    refine (agrees_acceptSymbol _).bind_reads fun optional? optional?' hoptional ↦ ?_
    have hmark : optional?'.isSome = optional?.isSome :=
      Bool.eq_iff_iff.mpr (isSome_iff_of_rel hoptional).symm
    refine reads_name.bind ?_
    rintro ⟨symbol, span⟩ ⟨_, span'⟩ ⟨rfl, hspan⟩
    dsimp only
    rw [hmark]
    refine .ite Iff.rfl ?_ ?_
    · exact (agrees_dynamic _ _ _ hspan).bind_same fun t ↦ .pure rfl
    cases builtIn? symbol with
    | some t => exact .pure rfl
    | none =>
      refine .ite Iff.rfl ?_ (.ite Iff.rfl ?_ ?_)
      · intro c c' hc hlt
        have hcallable := agrees_callable (nested space) (c.remaining + 1) []
        have hlt' : c.remaining < min fuel (c.remaining + 1) :=
          Nat.lt_min.mpr ⟨hlt, Nat.lt_succ_self _⟩
        have hend := (hcallable.bind_same (V := Eq)
          (f := fun t ↦ pure (t.withOptional optional?.isSome, false)) fun t ↦ .pure rfl)
          c c' hc hlt'
        change τ.reading.Ends _ _ (( callableAnnotation _ (c.remaining + 1) [] >>= _) c)
          (( callableAnnotation _ (c'.remaining + 1) [] >>= _) c')
        rw [hc.remaining_eq]
        exact hend
      · refine reads_name.agrees.bind ?_
        rintro ⟨explicit, _⟩ ⟨_, _⟩ ⟨rfl, -⟩
        refine reads_name.agrees.bind ?_
        rintro ⟨name, span⟩ ⟨_, span'⟩ ⟨rfl, hspan⟩
        exact (cat.agrees_named (nested explicit) _ _ hspan).bind_same fun t ↦ .pure rfl
      · exact (cat.agrees_named (nested space) _ _ hspan).bind_same fun t ↦ .pure rfl

/-- **The same type is read from a body and from its transcription.** -/
theorem reads_annotated (cat : Catalogue) (context : Ty) (space : Symbol) (dynamism : Dynamism) :
    τ.reading.Reads n Eq ( cat.annotation context space dynamism)
      ( cat.annotation context space dynamism) := by
  intro c c' hc hlt
  have hread := cat.reads_annotatedWithin context (c.remaining + 1) space dynamism c c' hc
    (Nat.lt_succ_self _)
  change τ.reading.Ends _ _ (cat.annotationWithin context (c.remaining + 1) space dynamism c)
    (cat.annotationWithin context (c'.remaining + 1) space dynamism c')
  rw [hc.remaining_eq]
  exact hread

end Catalogue

end Pictograph
