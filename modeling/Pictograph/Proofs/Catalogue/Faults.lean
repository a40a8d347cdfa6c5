import Pictograph.Catalogue.Annotation
import Pictograph.Proofs.Source.Spelling

/-!
# Faults of readings

Reading from the tokens of a body fails with a diagnosis, or because an annotation is nested too
deeply for the fuel. It has no part in the code, so it never reports a misfilled word.

## Main results

* `Catalogue.neverMisfills_annotated`: reading a type annotation never reports a misfilled word.
-/

namespace Pictograph

/-- A computation never stops because of a misfilled word. -/
def NeverMisfills {σ α : Type} (m : EStateM Fault σ α) : Prop :=
  ∀ s s', m s ≠ .error .misfilled s'

namespace NeverMisfills

variable {σ α β : Type}

theorem pure (a : α) : NeverMisfills (pure a : EStateM Fault σ α) := fun _ _ h ↦ nomatch h

theorem throw {fault : Fault} (h : fault ≠ .misfilled) :
    NeverMisfills (throw fault : EStateM Fault σ α) := by
  rintro s s' ⟨⟩
  exact h rfl

theorem get : NeverMisfills (get : EStateM Fault σ σ) := fun _ _ h ↦ nomatch h

theorem bind {m : EStateM Fault σ α} {f : α → EStateM Fault σ β} (h : NeverMisfills m)
    (h' : ∀ a, NeverMisfills (f a)) : NeverMisfills (m >>= f) := by
  intro s s' hs
  change EStateM.bind m f s = _ at hs
  unfold EStateM.bind at hs
  cases hm : m s with
  | ok a s₁ =>
    rw [hm] at hs
    exact h' a s₁ s' hs
  | error fault s₁ =>
    rw [hm] at hs
    cases hs
    exact h s _ hm

theorem map {m : EStateM Fault σ α} (f : α → β) (h : NeverMisfills m) :
    NeverMisfills (f <$> m) := by
  intro s s' hs
  change EStateM.map f m s = _ at hs
  unfold EStateM.map at hs
  cases hm : m s with
  | ok a s₁ =>
    rw [hm] at hs
    cases hs
  | error fault s₁ =>
    rw [hm] at hs
    cases hs
    exact h s _ hm

theorem ite {c : Prop} [Decidable c] {m n : EStateM Fault σ α} (h : NeverMisfills m)
    (h' : NeverMisfills n) : NeverMisfills (if c then m else n) := by
  split
  · exact h
  · exact h'

end NeverMisfills

theorem Cause.at_ne_misfilled (cause : Cause) (span : Span) : cause.at span ≠ .misfilled :=
  fun h ↦ nomatch h

/-! ## Tokens -/

namespace Reading

theorem neverMisfills_reject {α : Type} (expected : String) (t : Token) :
    NeverMisfills (reject expected t : Reading α) := .throw (Cause.at_ne_misfilled _ _)

theorem neverMisfills_next : NeverMisfills next := by
  intro c c' h
  unfold next at h
  split at h <;> cases h

theorem neverMisfills_accept (test : Token → Bool) : NeverMisfills (accept test) := by
  intro c c' h
  unfold accept at h
  split at h
  · split at h <;> cases h
  · cases h

theorem neverMisfills_acceptReference : NeverMisfills acceptReference := by
  rw [acceptReference_eq, map_eq_pure_bind]
  exact (neverMisfills_accept _).bind fun _ ↦ .pure _

theorem neverMisfills_expect (category : Category) : NeverMisfills (expect category) :=
  neverMisfills_next.bind fun t ↦ .ite (.pure t) (neverMisfills_reject _ t)

theorem neverMisfills_expectConstruct (construct : Construct) (spelling : Symbol) :
    NeverMisfills (expectConstruct construct spelling) :=
  neverMisfills_next.bind fun t ↦ .ite (.pure t) (neverMisfills_reject _ t)

theorem neverMisfills_name : NeverMisfills name := by
  refine (neverMisfills_expect _).bind fun t ↦ ?_
  cases t.identifier? with
  | some symbol => exact .pure _
  | none => exact neverMisfills_reject _ t

theorem neverMisfills_variableName : NeverMisfills variableName := by
  refine (neverMisfills_expect _).bind fun t ↦ ?_
  cases t.reference? with
  | some x => exact .pure _
  | none => exact neverMisfills_reject _ t

end Reading

/-! ## Annotations -/

namespace Catalogue

theorem neverMisfills_callable {read : Reading Ty} (h : NeverMisfills read)
    (fuel : Nat) (arguments : List Ty) :
    NeverMisfills ( callableAnnotation read fuel arguments) := by
  induction fuel generalizing arguments with
  | zero => exact .throw fun h ↦ nomatch h
  | succ fuel ih =>
    refine (Reading.neverMisfills_accept _).bind fun closing? ↦ .ite (.pure _) ?_
    refine (Reading.neverMisfills_accept _).bind fun arrow? ↦ .ite ?_ ?_
    · exact h.bind fun result ↦
        (Reading.neverMisfills_expectConstruct _ _).bind fun _ ↦ .pure _
    · exact h.bind fun argument ↦ ih _

theorem neverMisfills_genericArguments {read : Reading Ty} (h : NeverMisfills read)
    (constraints : List Ty) : NeverMisfills (genericArguments read constraints) := by
  induction constraints with
  | nil => exact .pure _
  | cons constraint rest ih =>
    refine (Reading.neverMisfills_accept _).bind fun mark? ↦ ?_
    split
    · exact h.bind fun argument ↦ ih.bind fun _ ↦ .pure _
    · exact (NeverMisfills.pure _).bind fun argument ↦ ih.bind fun _ ↦ .pure _

theorem neverMisfills_named (cat : Catalogue) {read : Reading Ty}
    (h : NeverMisfills read) (space name : Symbol) (span : Span) :
    NeverMisfills ( cat.namedAnnotation read space name span) := by
  unfold namedAnnotation
  cases cat.named? space name with
  | none => exact .throw (Cause.at_ne_misfilled _ _)
  | some t =>
    dsimp only
    cases cat.classOf? t with
    | none => exact .pure _
    | some c =>
      refine (neverMisfills_genericArguments h _).bind fun arguments ↦ ?_
      refine (Reading.neverMisfills_accept _).bind fun extra? ↦ ?_
      cases extra? with
      | none => exact .pure _
      | some extra => exact .throw (Cause.at_ne_misfilled _ _)

theorem neverMisfills_dynamic (context : Ty) (dynamism : Dynamism) (isOptional : Bool)
    (span : Span) : NeverMisfills ( dynamicAnnotation context dynamism isOptional span) := by
  unfold dynamicAnnotation
  refine .ite (.bind (.throw (Cause.at_ne_misfilled _ _)) fun _ ↦ ?_) ?_
  all_goals
    exact .ite (.bind (.throw (Cause.at_ne_misfilled _ _)) fun _ ↦ .pure _) (.pure _)

theorem neverMisfills_annotatedWithin (cat : Catalogue) (context : Ty) (fuel : Nat)
    (space : Symbol) (dynamism : Dynamism) :
    NeverMisfills (cat.annotationWithin context fuel space dynamism) := by
  induction fuel generalizing space dynamism with
  | zero => exact .throw fun h ↦ nomatch h
  | succ fuel ih =>
    have nested (space : Symbol) : NeverMisfills
        (Prod.fst <$> cat.annotationWithin context fuel space .forbidden) := (ih _ _).map _
    refine (Reading.neverMisfills_accept _).bind fun optional? ↦ ?_
    refine Reading.neverMisfills_name.bind fun ⟨symbol, span⟩ ↦ .ite ?_ ?_
    · exact (neverMisfills_dynamic _ _ _ _).bind fun _ ↦ .pure _
    · cases builtIn? symbol with
      | some t => exact .pure _
      | none =>
        refine .ite ?_ (.ite ?_ ?_)
        · refine NeverMisfills.get.bind fun c ↦ ?_
          exact (neverMisfills_callable (nested space) _ _).bind fun _ ↦ .pure _
        · refine Reading.neverMisfills_name.bind fun ⟨explicit, _⟩ ↦ ?_
          refine Reading.neverMisfills_name.bind fun ⟨name, span⟩ ↦ ?_
          exact (cat.neverMisfills_named (nested explicit) _ _ _).bind fun _ ↦ .pure _
        · exact (cat.neverMisfills_named (nested space) _ _ _).bind fun _ ↦ .pure _

/-- **Reading a type annotation never reports a misfilled word.** -/
theorem neverMisfills_annotated (cat : Catalogue) (context : Ty) (space : Symbol)
    (dynamism : Dynamism) : NeverMisfills ( cat.annotation context space dynamism) :=
  NeverMisfills.get.bind fun _ ↦ cat.neverMisfills_annotatedWithin _ _ _ _

end Catalogue

end Pictograph
