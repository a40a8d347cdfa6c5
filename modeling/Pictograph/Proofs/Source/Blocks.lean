import Pictograph.Source.Token

/-!
# Blocks of tokens

A block is enclosed in `🍇` and `🍉`. Who leaves a block out without analysing it can only count
these marks, and finds the right end just if the marks inside the block are balanced.

## Main definitions

* `Token.isPlain`: a token is no mark of a block.
* `Balanced`: blocks among some tokens are closed, and none is closed that is not open.
-/

namespace Pictograph

namespace Token

variable {t : Token} {c : Construct}

/-- The content of a string literal. -/
def string? (t : Token) : Option String :=
  match t.lexeme with
  | .string content => some content
  | _ => none

theorem asksFor_iff :
    t.asksFor c ↔ ∃ symbol, t.identifier? = some symbol ∧ .ofSymbol symbol = c := by
  rw [asksFor, construct?, beq_iff_eq, Option.map_eq_some_iff]

/-- Who asks for a construct is written as the construct is spelled. -/
theorem identifier?_of_asksFor (h : t.asksFor c) : t.identifier? = some c.spelling := by
  obtain ⟨symbol, hs, rfl⟩ := asksFor_iff.mp h
  rw [hs, Construct.spelling_ofSymbol]

theorem lexeme_of_asksFor (h : t.asksFor c) : t.lexeme = .identifier c.spelling := by
  have hidentifier := identifier?_of_asksFor h
  unfold identifier? at hidentifier
  split at hidentifier
  · next hl =>
    cases hidentifier
    exact hl
  · cases hidentifier

theorem asksFor_of_identifier? (hc : c ∈ Construct.reserved) (h : t.identifier? = some c.spelling) :
    t.asksFor c := asksFor_iff.mpr ⟨c.spelling, h, Construct.ofSymbol_spelling hc⟩

/-- A string literal asks for nothing. -/
theorem string?_of_identifier? {symbol : Symbol} (h : t.identifier? = some symbol) :
    t.string? = none := by
  rw [identifier?] at h
  split at h
  · next hl => rw [string?, hl]
  · cases h

/-- Whether a token is no mark of a block. -/
def isPlain (t : Token) : Bool := !t.asksFor .blockOpen && !t.asksFor .blockClose

theorem asksFor_of_isPlain (h : t.isPlain) :
    t.asksFor .blockOpen = false ∧ t.asksFor .blockClose = false := by
  simpa [isPlain] using h

/-- An identifier that is spelled otherwise is no mark of a block. -/
theorem isPlain_of_identifier? {symbol : Symbol} (h : t.identifier? = some symbol)
    (hopen : symbol ≠ Construct.blockOpen.spelling)
    (hclose : symbol ≠ Construct.blockClose.spelling) : t.isPlain := by
  have hne {c : Construct} (hc : symbol ≠ c.spelling) : t.asksFor c = false := by
    rw [Bool.eq_false_iff]
    intro ha
    exact hc (Option.some.inj (h.symm.trans (identifier?_of_asksFor ha)))
  rw [isPlain, hne hopen, hne hclose]
  rfl

/-- What is no identifier is no mark of a block. -/
theorem isPlain_of_identifier?_eq_none (h : t.identifier? = none) : t.isPlain := by
  rw [isPlain, asksFor, asksFor, construct?, h]
  rfl

/-- A token that is no identifier is plain. -/
theorem isPlain_of_category (h : t.lexeme.category ≠ .identifier) :
    t.isPlain := by
  refine isPlain_of_identifier?_eq_none ?_
  rw [identifier?]
  split
  · next hl => exact absurd (congrArg Lexeme.category hl) h
  · rfl

theorem string?_of_category (h : t.lexeme.category ≠ .string) :
    t.string? = none := by
  rw [string?]
  split
  · next hl => exact absurd (congrArg Lexeme.category hl) h
  · rfl

/-- A token that asks for a construct other than a block. -/
theorem isPlain_of_asksFor (h : t.asksFor c)
    (ho : c ≠ .blockOpen) (hc : c ≠ .blockClose) : t.isPlain := by
  obtain ⟨symbol, hs, rfl⟩ := asksFor_iff.mp h
  have hne {d : Construct} (hd : Construct.ofSymbol symbol ≠ d) : t.asksFor d = false := by
    rw [asksFor, construct?, hs]
    exact beq_false_of_ne fun he ↦ hd (Option.some.inj he)
  rw [isPlain, hne ho, hne hc]
  rfl

/-- The mark that closes a block opens none. -/
theorem asksFor_blockOpen_of_blockClose (h : t.asksFor .blockClose) :
    t.asksFor .blockOpen = false := by
  rw [Bool.eq_false_iff]
  intro ho
  cases (identifier?_of_asksFor ho).symm.trans (identifier?_of_asksFor h)

end Token

/-- The blocks among some tokens are closed, and none is closed that is not open. -/
inductive Balanced : List Token → Prop
  | nil : Balanced []
  | plain {t} (h : t.isPlain) : Balanced [t]
  | append {ts ts'} : Balanced ts → Balanced ts' → Balanced (ts ++ ts')
  | block {opening closing ts} (ho : opening.asksFor .blockOpen)
      (hc : closing.asksFor .blockClose) : Balanced ts → Balanced (opening :: ts ++ [closing])

end Pictograph
