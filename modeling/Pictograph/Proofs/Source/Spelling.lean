import Pictograph.Source.Cursor

/-!
# Words of identifiers in front of a cursor

What an annotation is made of are identifiers, whatever their places. A cursor *spells* a word of
symbols up to another cursor if the tokens between the two are the identifiers of the word. The
steps of a reader take one symbol each, so what a reader takes is a word that is put together from
the words of its steps.

## Main definitions

* `Cursor.Reads`: the next token is an identifier.
* `Cursor.Spells`: the tokens between two cursors are the identifiers of a word.
-/

namespace Pictograph

namespace Cursor

/-- The next token of `c` is the identifier `symbol`, and `d` stands behind it. -/
def Reads (c : Cursor) (symbol : Symbol) (d : Cursor) : Prop :=
  ∃ t : Token, c.advance = some (t, d) ∧ t.identifier? = some symbol

/-- The next token is the identifier `symbol`. -/
def StartsWith (c : Cursor) (symbol : Symbol) : Prop :=
  ∃ d, c.Reads symbol d

/-- The tokens from `c` up to `d` are the identifiers of a word. -/
inductive Spells : Cursor → List Symbol → Cursor → Prop
  | nil {c} : Spells c [] c
  | cons {c d e symbol symbols} (hread : c.Reads symbol d) (hrest : Spells d symbols e) :
      Spells c (symbol :: symbols) e

variable {c d e : Cursor} {s s' : Symbol} {xs ys : List Symbol}

theorem Reads.symbol_eq (h : c.Reads s d) (h' : c.Reads s' e) : s = s' := by
  obtain ⟨t, ht, hs⟩ := h
  obtain ⟨t', ht', hs'⟩ := h'
  cases ht.symm.trans ht'
  exact Option.some.inj (hs.symm.trans hs')

theorem Reads.remaining (h : c.Reads s d) : c.remaining = d.remaining + 1 := by
  obtain ⟨t, ht, -⟩ := h
  rw [Cursor.remaining, (advance_eq_some ht).1, List.length_cons, Cursor.remaining]

namespace Spells

theorem single (h : c.Reads s d) : c.Spells [s] d := .cons h .nil

theorem append (h : c.Spells xs d) (h' : d.Spells ys e) : c.Spells (xs ++ ys) e := by
  induction h with
  | nil => exact h'
  | cons hread _ ih => exact .cons hread (ih h')

theorem of_nil (h : c.Spells [] d) : c = d := by
  cases h
  rfl

theorem of_cons (h : c.Spells (s :: xs) e) : ∃ d, c.Reads s d ∧ d.Spells xs e := by
  cases h with
  | cons hread hrest => exact ⟨_, hread, hrest⟩

theorem of_append (h : c.Spells (xs ++ ys) e) : ∃ d, c.Spells xs d ∧ d.Spells ys e := by
  induction xs generalizing c with
  | nil => exact ⟨c, .nil, h⟩
  | cons s xs ih =>
    obtain ⟨c₁, hread, h⟩ := h.of_cons
    obtain ⟨d, hx, hy⟩ := ih h
    exact ⟨d, .cons hread hx, hy⟩

theorem remaining (h : c.Spells xs d) : c.remaining = d.remaining + xs.length := by
  induction h with
  | nil => rfl
  | cons hread _ ih => rw [hread.remaining, ih, List.length_cons, Nat.add_assoc]

/-- A word is read from one place to a later one, and the tokens behind it are those still to
come. -/
theorem position (h : c.Spells xs d) :
    d.position = c.position + xs.length ∧ d.position + d.remaining = c.position + c.remaining := by
  induction h with
  | nil => exact ⟨rfl, rfl⟩
  | cons hread _ ih =>
    have hremaining := hread.remaining
    obtain ⟨t, ht, -⟩ := hread
    have hposition := congrArg List.length (advance_eq_some ht).2
    rw [List.length_cons, ← Cursor.position, ← Cursor.position] at hposition
    rw [List.length_cons]
    omega

/-- A cursor starts with the first symbol of a word that it spells. -/
theorem startsWith_iff (h : c.Spells (s :: xs) d) : c.StartsWith s' ↔ s' = s := by
  obtain ⟨d, hread, -⟩ := h.of_cons
  constructor
  · rintro ⟨_, hread'⟩
    exact hread'.symbol_eq hread
  · rintro rfl
    exact ⟨d, hread⟩

end Spells

/-- Identifiers, all of them in one place. -/
def identifiers (symbols : List Symbol) (span : Span) : List Token :=
  symbols.map fun symbol ↦ ⟨.identifier symbol, span⟩

theorem spells_identifiers (symbols : List Symbol) (span : Span) (before after : List Token) :
    Spells ⟨before, identifiers symbols span ++ after⟩ symbols
      ⟨(identifiers symbols span).reverse ++ before, after⟩ := by
  induction symbols generalizing before with
  | nil => exact .nil
  | cons symbol symbols ih =>
    refine .cons ⟨⟨.identifier symbol, span⟩, rfl, rfl⟩ ?_
    rw [identifiers, List.map_cons, List.reverse_cons, List.append_assoc]
    exact ih _

end Cursor

/-! ## Steps of a reader -/

namespace Reading

variable {α β : Type} {c d : Cursor} {s : Symbol} {construct : Construct}

/-- What a reader returns and where it stops, if it succeeds. -/
def success? : EStateM.Result Fault Cursor α → Option (α × Cursor)
  | .ok a d => some (a, d)
  | .error _ _ => none

/-- Why a reader fails, if it does. -/
def fault? : EStateM.Result Fault Cursor α → Option Fault
  | .ok _ _ => none
  | .error fault _ => some fault

theorem eq_ok_of_success? {result : EStateM.Result Fault Cursor α} {a : α}
    (h : success? result = some (a, d)) : result = .ok a d := by
  cases result with
  | ok a' d' =>
    cases h
    rfl
  | error fault d' => cases h

theorem bind_ok {r : Reading α} {f : α → Reading β} {b : β} (h : (r >>= f) c = .ok b d) :
    ∃ a c₁, r c = .ok a c₁ ∧ f a c₁ = .ok b d := by
  change EStateM.bind r f c = _ at h
  unfold EStateM.bind at h
  split at h
  · next a c₁ hr => exact ⟨a, c₁, hr, h⟩
  · cases h

theorem map_ok {r : Reading α} {f : α → β} {b : β} (h : (f <$> r) c = .ok b d) :
    ∃ a, r c = .ok a d ∧ f a = b := by
  change EStateM.map f r c = _ at h
  unfold EStateM.map at h
  split at h
  · next a _ hr =>
    cases h
    exact ⟨a, hr, rfl⟩
  · cases h

theorem bind_of_ok {r : Reading α} {f : α → Reading β} {a : α} (h : r c = .ok a d) :
    (r >>= f) c = f a d := by
  change EStateM.bind r f c = _
  rw [EStateM.bind, h]

theorem bind_of_error {r : Reading α} {f : α → Reading β} {fault : Fault}
    (h : r c = .error fault d) : (r >>= f) c = .error fault d := by
  change EStateM.bind r f c = _
  rw [EStateM.bind, h]

theorem acceptSymbol_ok {t? : Option Token} (h : acceptSymbol s c = .ok t? d) :
    t?.isSome ∧ c.Reads s d ∨ t? = none ∧ d = c ∧ ¬ c.StartsWith s := by
  rw [acceptSymbol, accept] at h
  split at h
  · next t d' hadvance =>
    split at h
    · next htest =>
      cases h
      exact .inl ⟨rfl, t, hadvance, beq_iff_eq.mp htest⟩
    · next htest =>
      cases h
      refine .inr ⟨rfl, rfl, ?_⟩
      rintro ⟨_, t', hadvance', ht'⟩
      cases hadvance.symm.trans hadvance'
      exact htest (beq_iff_eq.mpr ht')
  · next hadvance =>
    cases h
    refine .inr ⟨rfl, rfl, ?_⟩
    rintro ⟨_, t', hadvance', -⟩
    cases hadvance.symm.trans hadvance'

theorem acceptSymbol_of_reads (h : c.Reads s d) : ∃ t, acceptSymbol s c = .ok (some t) d := by
  obtain ⟨t, hadvance, hs⟩ := h
  have htest : (t.identifier? == some s) = true := beq_iff_eq.mpr hs
  refine ⟨t, ?_⟩
  rw [acceptSymbol, accept, hadvance]
  exact if_pos htest

theorem acceptSymbol_of_not_startsWith (h : ¬ c.StartsWith s) :
    acceptSymbol s c = .ok none c := by
  rw [acceptSymbol, accept]
  split
  · next t d hadvance =>
    have htest : ¬ (t.identifier? == some s) = true := fun hs ↦
      h ⟨d, t, hadvance, beq_iff_eq.mp hs⟩
    exact if_neg htest
  · rfl

theorem next_ok {t : Token} (h : next c = .ok t d) : c.advance = some (t, d) := by
  rw [next] at h
  split at h
  · next hadvance =>
    cases h
    exact hadvance
  · cases h

theorem next_of_advance {t : Token} (h : c.advance = some (t, d)) : next c = .ok t d := by
  rw [next, h]

theorem name_ok {p : Symbol × Span} (h : name c = .ok p d) : c.Reads p.1 d := by
  obtain ⟨t, c₁, ht, h⟩ := bind_ok h
  obtain ⟨t', c₂, hnext, ht⟩ := bind_ok ht
  have hadvance := next_ok hnext
  split at ht
  · cases ht
    cases hs : t.identifier? with
    | some symbol =>
      rw [hs] at h
      cases h
      exact ⟨t, hadvance, hs⟩
    | none =>
      rw [hs] at h
      cases h
  · cases ht

theorem name_of_reads (h : c.Reads s d) : ∃ span, name c = .ok (s, span) d := by
  obtain ⟨t, hadvance, hs⟩ := h
  have hcategory : t.lexeme.category = .identifier := by
    rw [Token.identifier?] at hs
    split at hs
    · next hlexeme =>
      rw [hlexeme]
      rfl
    · cases hs
  have hexpect : expect .identifier c = .ok t d := by
    refine (bind_of_ok (next_of_advance hadvance)).trans ?_
    rw [if_pos hcategory]
    rfl
  refine ⟨t.span, (bind_of_ok hexpect).trans ?_⟩
  rw [hs]
  rfl

theorem expectConstruct_ok {spelling : Symbol} {t : Token}
    (h : expectConstruct construct spelling c = .ok t d) : c.Reads construct.spelling d := by
  obtain ⟨t', c₁, hnext, h⟩ := bind_ok h
  split at h
  · next hasks =>
    cases h
    rw [Token.asksFor, beq_iff_eq, Token.construct?] at hasks
    obtain ⟨s, hs, rfl⟩ := Option.map_eq_some_iff.mp hasks
    rw [Construct.spelling_ofSymbol]
    exact ⟨t, next_ok hnext, hs⟩
  · cases h

theorem expectConstruct_of_reads {spelling : Symbol} (hc : construct ∈ Construct.reserved)
    (h : c.Reads construct.spelling d) : ∃ t, expectConstruct construct spelling c = .ok t d := by
  obtain ⟨t, hadvance, hs⟩ := h
  have hasks : t.asksFor construct = true := by
    rw [Token.asksFor, beq_iff_eq, Token.construct?, hs, Option.map_some,
      Construct.ofSymbol_spelling hc]
  refine ⟨t, (bind_of_ok (next_of_advance hadvance)).trans ?_⟩
  rw [if_pos hasks]
  rfl

theorem accept_ok {test : Token → Bool} {t? : Option Token} (h : accept test c = .ok t? d) :
    d = c ∨ ∃ t, c.advance = some (t, d) ∧ test t := by
  unfold accept at h
  split at h
  · next t d' hadvance =>
    split at h
    · next htest =>
      cases h
      exact .inr ⟨t, hadvance, htest⟩
    · cases h
      exact .inl rfl
  · cases h
    exact .inl rfl

/-- Accepting a reference is accepting a token that is one. -/
theorem acceptReference_eq :
    acceptReference = (fun t? : Option Token ↦ t?.bind Token.reference?)
      <$> accept fun t ↦ t.reference?.isSome := by
  funext c
  rw [map_eq_pure_bind]
  change _ = EStateM.bind (accept _) _ c
  rw [acceptReference, EStateM.bind, accept]
  cases c.advance with
  | none => rfl
  | some p =>
    obtain ⟨t, d⟩ := p
    dsimp only
    cases ht : t.reference? with
    | none => rfl
    | some x =>
      change _ = EStateM.Result.ok (t.reference?) d
      rw [ht]

theorem acceptReference_ok {x? : Option String} (h : acceptReference c = .ok x? d) :
    d = c ∨ ∃ t x, c.advance = some (t, d) ∧ t.reference? = some x := by
  rw [acceptReference_eq, map_eq_pure_bind] at h
  obtain ⟨t?, d', haccept, h⟩ := bind_ok h
  cases h
  refine (accept_ok haccept).imp_right fun ⟨t, hadvance, htest⟩ ↦ ?_
  obtain ⟨x, hx⟩ := Option.isSome_iff_exists.mp htest
  exact ⟨t, x, hadvance, hx⟩

theorem expect_ok {category : Category} {t : Token} (h : expect category c = .ok t d) :
    c.advance = some (t, d) ∧ t.lexeme.category = category := by
  obtain ⟨t', c₁, hnext, h⟩ := bind_ok h
  split at h
  · next hcategory =>
    cases h
    exact ⟨next_ok hnext, hcategory⟩
  · cases h

end Reading

end Pictograph
