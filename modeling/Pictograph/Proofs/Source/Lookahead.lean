import Pictograph.Catalogue.Annotation
import Pictograph.Proofs.Source.Spelling

/-!
# Reading in front of further tokens

A reader looks at most one token ahead: it reads a token and decides, or it leaves the next token
where it is. So what it reads does not depend on what comes behind that token. Only at the end of
the tokens it may find something different once there are more of them, because there it goes on
without a token that it would have accepted.

How often an annotation is nested and how many arguments it has is bounded by the number of tokens
that are left. With more tokens the bounds are higher, so what is compared are two readers, one of
which has the higher bounds.

## Main definitions

* `Cursor.followed`: a cursor with further tokens behind those to come.
* `Reading.Lasts`: what one reader reads, another one reads in front of further tokens.

## Main results

* `Reading.Lasts.bind`: one reader after another.
* `Catalogue.lasts_annotated`: type annotations.
-/

namespace Pictograph

/-- The cursor with further tokens behind those that are still to come. -/
def Cursor.followed (c : Cursor) (later : List Token) : Cursor :=
  { c with after := c.after ++ later }

namespace Cursor

variable {c d : Cursor} {t : Token}

/-- The next token is the same in front of further tokens. -/
theorem advance_followed (h : c.advance = some (t, d)) (later : List Token) :
    (c.followed later).advance = some (t, d.followed later) := by
  obtain ⟨hafter, hbefore⟩ := advance_eq_some h
  rw [advance, followed, hafter, List.cons_append, followed, hbefore]

theorem suffix_of_advance (h : c.advance = some (t, d)) : d.after <:+ c.after := by
  rw [(advance_eq_some h).1]
  exact List.suffix_cons t d.after

theorem after_of_advance (h : c.advance = none) : c.after = [] := by
  rw [advance] at h
  split at h
  · assumption
  · cases h

end Cursor

namespace Reading

variable {α β : Type}

/-- A token is read alike in front of further tokens, even if it was the last one. -/
theorem next_followed {c d : Cursor} {t : Token} (h : next c = .ok t d) (later : List Token) :
    next (c.followed later) = .ok t (d.followed later) := by
  unfold next at h ⊢
  split at h
  · next hadvance =>
    cases h
    rw [Cursor.advance_followed hadvance later]
  · cases h

/-- What a reader reads is a stretch of the tokens to come. Unless it gets to their end, another
reader reads the same in front of further tokens. -/
structure Lasts (r r' : Reading α) : Prop where
  suffix : ∀ {c d : Cursor} {a : α}, r c = .ok a d → d.after <:+ c.after
  followed : ∀ {c d : Cursor} {a : α}, r c = .ok a d → d.after ≠ [] → ∀ later,
    r' (c.followed later) = .ok a (d.followed later)

namespace Lasts

variable {r r' : Reading α} {f f' : α → Reading β}

theorem pure (a : α) : Lasts (pure a) (pure a) where
  suffix h := by
    cases h
    exact List.suffix_rfl
  followed h _ later := by
    cases h
    rfl

theorem throw (fault : Fault) : Lasts (throw fault : Reading α) r' := ⟨nofun, nofun⟩

/-- One reader after another: if the second one leaves a token, so does the first one. -/
theorem bind (h : Lasts r r') (h' : ∀ a, Lasts (f a) (f' a)) : Lasts (r >>= f) (r' >>= f') where
  suffix hb := by
    obtain ⟨a, d, ha, hb⟩ := bind_ok hb
    exact ((h' a).suffix hb).trans (h.suffix ha)
  followed hb hafter later := by
    obtain ⟨a, d, ha, hb⟩ := bind_ok hb
    have hbetween : d.after ≠ [] := fun hnil ↦
      hafter (List.suffix_nil.mp (hnil ▸ (h' a).suffix hb))
    exact (bind_of_ok (h.followed ha hbetween later)).trans ((h' a).followed hb hafter later)

theorem ite {p : Prop} [Decidable p] {m m' : Reading α} (h : Lasts r r') (h' : Lasts m m') :
    Lasts (if p then r else m) (if p then r' else m') := by
  split
  · exact h
  · exact h'

theorem map (g : α → β) (h : Lasts r r') : Lasts (g <$> r) (g <$> r') := by
  rw [map_eq_pure_bind, map_eq_pure_bind]
  exact h.bind fun _ ↦ .pure _

/-- With more tokens a bound is higher. -/
theorem bounded (f f' : Nat → Reading α) (h : ∀ n n', n ≤ n' → Lasts (f n) (f' n')) :
    Lasts (get >>= fun c : Cursor ↦ f c.remaining) (get >>= fun c : Cursor ↦ f' c.remaining) where
  suffix {c d a} hr := (h c.remaining c.remaining (Nat.le_refl _)).suffix hr
  followed {c d a} hr hafter later := by
    have hle : c.remaining ≤ (c.followed later).remaining := by
      rw [Cursor.remaining, Cursor.remaining, Cursor.followed, List.length_append]
      exact Nat.le_add_right _ _
    exact (h _ _ hle).followed hr hafter later

/-! ### Single tokens -/

theorem next : Lasts next next where
  suffix h := by
    unfold Reading.next at h
    split at h
    · next hadvance =>
      cases h
      exact Cursor.suffix_of_advance hadvance
    · cases h
  followed h _ later := Reading.next_followed h later

theorem accept (test : Token → Bool) : Lasts (accept test) (accept test) where
  suffix h := by
    unfold Reading.accept at h
    split at h
    · next hadvance =>
      split at h <;> cases h
      · exact Cursor.suffix_of_advance hadvance
      · exact List.suffix_rfl
    · cases h
      exact List.suffix_rfl
  followed {c d a} h hafter later := by
    unfold Reading.accept at h ⊢
    split at h
    · next hadvance =>
      rw [Cursor.advance_followed hadvance later]
      dsimp only
      split at h
      · next htest =>
        cases h
        rw [if_pos htest]
      · next htest =>
        cases h
        rw [if_neg htest]
    · next hadvance =>
      -- the end of the tokens is the one place where nothing is claimed
      cases h
      exact absurd (Cursor.after_of_advance hadvance) hafter

theorem acceptReference : Lasts acceptReference acceptReference := by
  rw [acceptReference_eq]
  exact .map _ (.accept _)

theorem acceptSymbol (symbol : Symbol) : Lasts (acceptSymbol symbol) (acceptSymbol symbol) :=
  .accept _

theorem expect (category : Category) : Lasts (expect category) (expect category) :=
  .bind .next fun _ ↦ .ite (.pure _) (.throw _)

theorem expectConstruct (construct : Construct) (spelling : Symbol) :
    Lasts (expectConstruct construct spelling) (expectConstruct construct spelling) :=
  .bind .next fun _ ↦ .ite (.pure _) (.throw _)

theorem name : Lasts name name := by
  refine .bind (.expect _) fun t ↦ ?_
  cases t.identifier? with
  | none => exact .throw _
  | some => exact .pure _

theorem variableName : Lasts variableName variableName := by
  refine .bind (.expect _) fun t ↦ ?_
  cases t.reference? with
  | none => exact .throw _
  | some => exact .pure _

end Lasts

end Reading

/-! ## Type annotations -/

namespace Catalogue

open Reading

section

variable {read read' : Reading Ty} (hread : Lasts read read')

include hread

theorem lasts_callable {n n' : Nat} (hn : n ≤ n') (arguments : List Ty) :
    Lasts ( callableAnnotation read n arguments) ( callableAnnotation read' n' arguments) := by
  induction n generalizing n' arguments with
  | zero => exact .throw _
  | succ n ih =>
    obtain ⟨n', rfl⟩ := Nat.exists_eq_succ_of_ne_zero (Nat.ne_zero_of_lt hn)
    refine .bind (.acceptSymbol _) fun _ ↦ .ite (.pure _) (.bind (.acceptSymbol _) fun _ ↦ ?_)
    refine .ite (.bind hread fun _ ↦ .bind (.expectConstruct _ _) fun _ ↦ .pure _) ?_
    exact .bind hread fun _ ↦ ih (Nat.le_of_succ_le_succ hn) _

theorem lasts_genericArguments (constraints : List Ty) :
    Lasts (genericArguments read constraints) (genericArguments read' constraints) := by
  induction constraints with
  | nil => exact .pure _
  | cons constraint rest ih =>
    refine .bind (.acceptSymbol _) fun mark ↦ ?_
    dsimp only
    split
    · exact .bind hread fun _ ↦ .bind ih fun _ ↦ .pure _
    · exact .bind (.pure _) fun _ ↦ .bind ih fun _ ↦ .pure _

theorem lasts_named (cat : Catalogue) (space name : Symbol) (span : Span) :
    Lasts ( cat.namedAnnotation read space name span)
      ( cat.namedAnnotation read' space name span) := by
  unfold namedAnnotation
  split
  · exact .throw _
  · split
    · exact .pure _
    · refine .bind (lasts_genericArguments hread _) fun _ ↦ .bind (.acceptSymbol _) fun mark ↦ ?_
      split
      · exact .pure _
      · exact .throw _

end

theorem lasts_dynamic (context : Ty) (dynamism : Dynamism) (isOptional : Bool) (span : Span) :
    Lasts ( dynamicAnnotation context dynamism isOptional span)
      ( dynamicAnnotation context dynamism isOptional span) := by
  unfold dynamicAnnotation
  refine .ite (.bind (.throw _) fun _ ↦ ?_) (.ite (.bind (.throw _) fun _ ↦ ?_) (.pure _))
  · exact .ite (.bind (.throw _) fun _ ↦ .pure _) (.pure _)
  · exact .pure _

theorem lasts_within (cat : Catalogue) (context : Ty) {n n' : Nat} (hn : n ≤ n') (space : Symbol)
    (dynamism : Dynamism) :
    Lasts ( cat.annotationWithin context n space dynamism)
      ( cat.annotationWithin context n' space dynamism) := by
  induction n generalizing n' space dynamism with
  | zero => exact .throw _
  | succ n ih =>
    obtain ⟨n', rfl⟩ := Nat.exists_eq_succ_of_ne_zero (Nat.ne_zero_of_lt hn)
    have hnested (space : Symbol) :=
      Lasts.map Prod.fst (ih (Nat.le_of_succ_le_succ hn) space .forbidden)
    refine .bind (.acceptSymbol _) fun _ ↦ .bind .name fun (symbol, span) ↦ ?_
    dsimp only
    refine .ite (.bind (lasts_dynamic _ _ _ _) fun _ ↦ .pure _) ?_
    split
    · exact .pure _
    · refine .ite ?_ (.ite ?_ ?_)
      · exact .bounded (fun n ↦ callableAnnotation _ (n + 1) [] >>= _)
          (fun n ↦ callableAnnotation _ (n + 1) [] >>= _) fun _ _ hn ↦
          .bind (lasts_callable (hnested _) (Nat.succ_le_succ hn) _) fun _ ↦ .pure _
      · exact .bind .name fun _ ↦ .bind .name fun _ ↦
          .bind (lasts_named (hnested _) _ _ _ _) fun _ ↦ .pure _
      · exact .bind (lasts_named (hnested _) _ _ _ _) fun _ ↦ .pure _

/-- **Annotations are read alike in front of further tokens.** -/
theorem lasts_annotated (cat : Catalogue) (context : Ty) (space : Symbol) (dynamism : Dynamism) :
    Lasts ( cat.annotation context space dynamism) ( cat.annotation context space dynamism) :=
  .bounded _ _ fun _ _ hn ↦ cat.lasts_within context (Nat.succ_le_succ hn) space dynamism

end Catalogue

end Pictograph
