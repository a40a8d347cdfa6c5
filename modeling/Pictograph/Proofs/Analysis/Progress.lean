import Pictograph.Proofs.Analysis.Query
import Pictograph.Proofs.Catalogue.Annotations
import Pictograph.Proofs.Catalogue.Names
import Pictograph.Proofs.Code.Literals
import Pictograph.Proofs.Source.Blocks

/-!
# The progress of an analysis

From outside, an analysis goes through the tokens and writes code and strings. A token is a string
literal, which is written when it is read, or it is none; the marks of a block come in pairs, unless
they are the names of something. What an analysis does between two of its states is put together
from these steps.

The first token of an expression is read by the construct around it. So the progress of an
expression starts in front of a token that has been read already.

## Main definitions

* `Progress`: the tokens that are left, and what was written.
* `Progress.Leads`: one progress leads to another by reading tokens and writing.
* `Proceeds`: what a successful analysis does leads from where it starts to where it ends.

## Main results

* `Progress.Leads.balanced`: the blocks among the tokens that are read are closed.
* `Progress.Leads.literals`: the string literals among them are those that are written.
* `Progress.Leads.take`: what stands in front of all reserved words is not written again.
-/

namespace Pictograph

/-- How far an analysis came. -/
structure Progress where
  /-- The tokens that are still to come. -/
  after : List Token
  /-- The code written so far. -/
  assembler : Assembler
  /-- The strings met so far. -/
  strings : StringTable

/-- How far the analysis came. -/
def State.progress (s : State) : Progress := ⟨s.cursor.after, s.assembler, s.session.strings⟩

namespace Progress

/-- In front of a token that was the last to be read. -/
def unread (p : Progress) (t : Token) : Progress := { p with after := t :: p.after }

/-- Behind a string literal that is written. -/
def literal (p : Progress) (content : String) : Progress where
  after := p.after
  assembler := p.assembler.literal (p.strings.intern content).1
  strings := (p.strings.intern content).2

/-- One progress leads to another. -/
inductive Leads (cat : Catalogue) : Progress → Progress → Prop
  | refl (p : Progress) : Leads cat p p
  | trans {p q r : Progress} : Leads cat p q → Leads cat q r → Leads cat p r
  /-- A token is read. A mark of a block is a name in the catalogue. -/
  | read {p : Progress} {t : Token} (hs : t.string? = none)
      (hm : t.isPlain ∨ ∃ symbol, t.identifier? = some symbol ∧ cat.Finds symbol) :
      Leads cat (p.unread t) p
  /-- A string literal is read and written. -/
  | literal {p : Progress} {t : Token} {content : String} (ht : t.string? = some content) :
      Leads cat (p.unread t) (p.literal content)
  /-- A block is read. -/
  | block {p q : Progress} {opening closing : Token} (ho : opening.asksFor .blockOpen)
      (hc : closing.asksFor .blockClose) :
      Leads cat p (q.unread closing) → Leads cat (p.unread opening) q
  /-- Code is written other than for a string literal. -/
  | edit {p : Progress} {a : Assembler} (h : p.assembler.Edit a) :
      Leads cat p { p with assembler := a }

variable {cat : Catalogue} {p q : Progress}

/-! ## What is read -/

/-- **Blocks are closed.** If no mark of a block is a name, the blocks among the tokens that are
read are closed. -/
theorem Leads.balanced (h : Leads cat p q) (hopen : ¬ cat.Finds Construct.blockOpen.spelling)
    (hclose : ¬ cat.Finds Construct.blockClose.spelling) :
    ∃ ts, p.after = ts ++ q.after ∧ Balanced ts := by
  induction h with
  | refl p => exact ⟨[], rfl, .nil⟩
  | trans _ _ ih₁ ih₂ =>
    obtain ⟨ts, h₁, hts⟩ := ih₁
    obtain ⟨ts', h₂, hts'⟩ := ih₂
    exact ⟨ts ++ ts', by rw [h₁, h₂, List.append_assoc], hts.append hts'⟩
  | @read p t hs hm =>
    refine ⟨[t], rfl, .plain ?_⟩
    rcases hm with hm | ⟨symbol, ht, hfinds⟩
    · exact hm
    · exact Token.isPlain_of_identifier? ht (fun he ↦ hopen (he ▸ hfinds))
        fun he ↦ hclose (he ▸ hfinds)
  | @literal p t content ht =>
    refine ⟨[t], rfl, .plain (Token.isPlain_of_identifier?_eq_none ?_)⟩
    rw [Option.eq_none_iff_forall_ne_some]
    intro symbol hi
    cases (Token.string?_of_identifier? hi).symm.trans ht
  | @block p q opening closing ho hc _ ih =>
    obtain ⟨ts, h, hts⟩ := ih
    refine ⟨opening :: ts ++ [closing], ?_, .block ho hc hts⟩
    rw [List.cons_append, List.cons_append, List.append_assoc]
    exact congrArg (opening :: ·) h
  | edit => exact ⟨[], rfl, .nil⟩

/-! ## What is written -/

/-- Strings are added behind those that are there. -/
theorem Leads.strings (h : Leads cat p q) :
    p.strings.strings.toList <+: q.strings.strings.toList := by
  induction h with
  | refl | read | edit => exact List.prefix_rfl
  | trans _ _ ih₁ ih₂ => exact ih₁.trans ih₂
  | literal => exact StringTable.prefix_intern _ _
  | block _ _ _ ih => exact ih

/-- **Code is written once.** What stands in front of all reserved words is not written again. -/
theorem Leads.take {n : Nat} (h : Leads cat p q) (hn : n ≤ p.assembler.cells.length)
    (hh : ∀ i ∈ p.assembler.holes, n ≤ i) :
    n ≤ q.assembler.cells.length ∧ (∀ i ∈ q.assembler.holes, n ≤ i)
      ∧ q.assembler.cells.take n = p.assembler.cells.take n := by
  induction h with
  | refl | read => exact ⟨hn, hh, rfl⟩
  | trans _ _ ih₁ ih₂ =>
    obtain ⟨hn₁, hh₁, h₁⟩ := ih₁ hn hh
    obtain ⟨hn₂, hh₂, h₂⟩ := ih₂ hn₁ hh₁
    exact ⟨hn₂, hh₂, h₂.trans h₁⟩
  | literal =>
    obtain ⟨hn', h'⟩ := Assembler.take_literal hn _
    exact ⟨hn', hh, h'⟩
  | block _ _ _ ih => exact ih hn hh
  | edit h => exact h.take hn hh

/-- Where no word is reserved, nothing is written again. -/
theorem Leads.cells (h : Leads cat p q) (hp : p.assembler.holes = []) :
    p.assembler.cells <+: q.assembler.cells := by
  have hbehind : ∀ i ∈ p.assembler.holes, p.assembler.cells.length ≤ i := by
    rw [hp]
    exact fun _ hi ↦ nomatch hi
  obtain ⟨-, -, htake⟩ := h.take (Nat.le_refl _) hbehind
  rw [List.take_length] at htake
  exact List.prefix_iff_eq_take.mpr htake.symm

/-- The string literals `contents` were read and written behind those that had been met. -/
structure Collects (contents : List String) (p q : Progress) : Prop where
  strings : ∀ met : List String, p.strings.strings.toList = met.eraseDups →
    q.strings.strings.toList = (met ++ contents).eraseDups
  operands : ∀ met : List String, p.strings.strings.toList = met.eraseDups → p.assembler.Clear →
    q.assembler.Clear ∧ stringOperandsIn q.assembler.cells = stringOperandsIn p.assembler.cells
      ++ contents.map fun content ↦ some (UInt32.ofNat ((met ++ contents).eraseDups.idxOf content))

theorem Collects.trans {contents contents' : List String} {r : Progress}
    (h : Collects contents p q) (h' : Collects contents' q r) :
    Collects (contents ++ contents') p r where
  strings met hp := by
    rw [← List.append_assoc]
    exact h'.strings _ (h.strings met hp)
  operands met hp hc := by
    have hq := h.strings met hp
    obtain ⟨hc₁, h₁⟩ := h.operands met hp hc
    obtain ⟨hc₂, h₂⟩ := h'.operands _ hq hc₁
    refine ⟨hc₂, ?_⟩
    rw [h₂, h₁, List.map_append, List.append_assoc, List.append_assoc]
    -- the positions of the first part stay what they are
    congr 2
    refine List.map_congr_left fun content hmem ↦ ?_
    rw [← List.append_assoc, List.idxOf_eraseDups_append (List.mem_append_right met hmem)]

/-- A step that neither reads nor writes string literals. -/
theorem Collects.of_edit (hs : q.strings = p.strings)
    (hc : p.assembler.Clear → q.assembler.Clear
      ∧ stringOperandsIn q.assembler.cells = stringOperandsIn p.assembler.cells) :
    Collects [] p q where
  strings met hp := by rw [hs, hp, List.append_nil]
  operands met _ hclear := by
    obtain ⟨hclear', h⟩ := hc hclear
    exact ⟨hclear', by rw [h, List.map_nil, List.append_nil]⟩

/-- **String literals are written in the order of the tokens**, each of them at the place where its
content was met first. -/
theorem Leads.literals (h : Leads cat p q) :
    ∃ ts, p.after = ts ++ q.after ∧ Collects (ts.filterMap Token.string?) p q := by
  induction h with
  | refl p => exact ⟨[], rfl, .of_edit rfl fun h ↦ ⟨h, rfl⟩⟩
  | trans _ _ ih₁ ih₂ =>
    obtain ⟨ts, h₁, hc₁⟩ := ih₁
    obtain ⟨ts', h₂, hc₂⟩ := ih₂
    refine ⟨ts ++ ts', by rw [h₁, h₂, List.append_assoc], ?_⟩
    rw [List.filterMap_append]
    exact hc₁.trans hc₂
  | @read p t hs hm =>
    refine ⟨[t], rfl, ?_⟩
    rw [List.filterMap_cons_none hs]
    exact .of_edit rfl fun h ↦ ⟨h, rfl⟩
  | @literal p t content ht =>
    refine ⟨[t], rfl, ?_⟩
    rw [List.filterMap_cons_some ht]
    refine ⟨fun met hp ↦ (StringTable.intern_of_eraseDups hp content).1, fun met hp hc ↦ ?_⟩
    have hindex : (p.strings.intern content).1 = (met ++ [content]).eraseDups.idxOf content :=
      (StringTable.intern_of_eraseDups hp content).2
    obtain ⟨hclear, h⟩ := Assembler.operands_literal hc (p.strings.intern content).1
    refine ⟨hclear, h.trans ?_⟩
    rw [hindex]
    rfl
  | @block p q opening closing ho hc _ ih =>
    obtain ⟨ts, h, hcollects⟩ := ih
    have hnone {t : Token} {c : Construct} (ht : t.asksFor c) : t.string? = none :=
      Token.string?_of_identifier? (Token.identifier?_of_asksFor ht)
    refine ⟨opening :: ts ++ [closing], ?_, ?_⟩
    · rw [List.cons_append, List.cons_append, List.append_assoc]
      exact congrArg (opening :: ·) h
    · rw [List.cons_append, List.filterMap_cons_none (hnone ho), List.filterMap_append,
        List.filterMap_cons_none (hnone hc), List.filterMap_nil, List.append_nil]
      exact ⟨hcollects.strings, hcollects.operands⟩
  | edit h => exact ⟨[], rfl, .of_edit rfl h.operands⟩

/-! ## Annotations -/

/-- With the tokens of a cursor still to come. -/
def seek (p : Progress) (c : Cursor) : Progress := { p with after := c.after }

theorem seek_of_advance {c d : Cursor} {t : Token} (h : c.advance = some (t, d)) :
    p.seek c = (p.seek d).unread t :=
  congrArg (Progress.mk · p.assembler p.strings) (Cursor.advance_eq_some h).1

/-- A symbol is no mark of a block. -/
def IsNoMark (symbol : Symbol) : Prop :=
  symbol ≠ Construct.blockOpen.spelling ∧ symbol ≠ Construct.blockClose.spelling

instance : DecidablePred IsNoMark := fun _ ↦ inferInstanceAs (Decidable (_ ∧ _))

theorem isNoMark_of_builtIn? {x : Symbol} (h : (Catalogue.builtIn? x).isSome) : IsNoMark x := by
  constructor
  · rintro rfl
    cases h
  · rintro rfl
    cases h

namespace Leads

variable {c d : Cursor} {x space : Symbol} {word : List Symbol} {read : Reading Ty}

theorem token {t : Token} (h : c.advance = some (t, d)) (hs : t.string? = none)
    (hm : t.isPlain ∨ ∃ symbol, t.identifier? = some symbol ∧ cat.Finds symbol) :
    Leads cat (p.seek c) (p.seek d) := by
  rw [seek_of_advance h]
  exact .read hs hm

/-- An identifier is read that is no mark of a block, or else a name in the catalogue. -/
theorem symbol (h : c.Reads x d) (hm : IsNoMark x ∨ cat.Finds x) :
    Leads cat (p.seek c) (p.seek d) := by
  obtain ⟨t, hadvance, ht⟩ := h
  refine .token hadvance (Token.string?_of_identifier? ht) ?_
  rcases hm with hm | hm
  · exact .inl (Token.isPlain_of_identifier? ht hm.1 hm.2)
  · exact .inr ⟨x, ht, hm⟩

/-- The symbols of a callable are a block. -/
theorem callable
    (h : c.Spells (Construct.blockOpen.spelling :: word ++ [Construct.blockClose.spelling]) d)
    (hword : ∀ {c d : Cursor}, c.Spells word d → Leads cat (p.seek c) (p.seek d)) :
    Leads cat (p.seek c) (p.seek d) := by
  obtain ⟨e, hrest, hclose⟩ := h.of_append
  obtain ⟨c₁, ⟨opening, hopening, ho⟩, hrest⟩ := hrest.of_cons
  obtain ⟨d₁, ⟨closing, hclosing, hc⟩, hnil⟩ := hclose.of_cons
  obtain rfl := hnil.of_nil
  rw [seek_of_advance hopening]
  refine .block (Token.asksFor_of_identifier? (by decide) ho)
    (Token.asksFor_of_identifier? (by decide) hc) ?_
  rw [← seek_of_advance hclosing]
  exact hword hrest

theorem mark {isOptional : Bool} (h : c.Spells ( Annotation.mark isOptional) d) :
    Leads cat (p.seek c) (p.seek d) := by
  cases isOptional with
  | true =>
    obtain ⟨d₁, hread, hnil⟩ := h.of_cons
    obtain rfl := hnil.of_nil
    exact .symbol hread (.inl (by decide))
  | false =>
    obtain rfl := h.of_nil
    exact .refl _

mutual

/-- The symbols of an annotation that denotes a type. -/
theorem spelled {space : Symbol} : ∀ {a : Annotation} {c d : Cursor},
    (a.type? cat space).isSome → c.Spells a.symbols d → Leads cat (p.seek c) (p.seek d)
  | .builtIn isOptional symbol, c, d, ht, h => by
    rw [ Annotation.type?, Option.isSome_map] at ht
    obtain ⟨c₁, hmark, h⟩ := h.of_append
    obtain ⟨c₂, hread, hnil⟩ := h.of_cons
    obtain rfl := hnil.of_nil
    exact (Leads.mark hmark).trans (.symbol hread (.inl (isNoMark_of_builtIn? ht)))
  | .action isOptional arguments, c, d, ht, h => by
    rw [ Annotation.type?, Option.isSome_map] at ht
    rw [ Annotation.symbols, List.append_assoc] at h
    obtain ⟨c₁, hmark, h⟩ := h.of_append
    exact (Leads.mark hmark).trans (.callable h fun h ↦ spelledEach ht h)
  | .function isOptional arguments result, c, d, ht, h => by
    rw [ Annotation.type?, Option.isSome_bind, Option.any_eq_true] at ht
    obtain ⟨ts, hts, ht⟩ := ht
    rw [Option.isSome_map] at ht
    rw [ Annotation.symbols, List.append_assoc, List.append_assoc] at h
    obtain ⟨c₁, hmark, h⟩ := h.of_append
    rw [← List.append_assoc, List.cons_append] at h
    refine (Leads.mark hmark).trans (.callable h fun h ↦ ?_)
    obtain ⟨e, hargs, hrest⟩ := h.of_append
    obtain ⟨e₁, harrow, hresult⟩ := hrest.of_cons
    exact (spelledEach (Option.isSome_of_eq_some hts) hargs).trans
      ((Leads.symbol harrow (.inl (by decide))).trans (spelled ht hresult))
  | .named isOptional space? name arguments, c, d, ht, h => by
    rw [ Annotation.type?, Option.isSome_bind, Option.any_eq_true] at ht
    obtain ⟨t, hname, ht⟩ := ht
    rw [Option.isSome_bind, Option.any_eq_true] at ht
    obtain ⟨ts, hts, -⟩ := ht
    rw [ Annotation.symbols, List.append_assoc] at h
    obtain ⟨c₁, hmark, h⟩ := h.of_append
    obtain ⟨c₂, hqualifier, h⟩ := h.of_append
    obtain ⟨c₃, hread, h⟩ := h.of_cons
    refine (Leads.mark hmark).trans (.trans ?_ (.trans (.symbol hread (.inr (.type hname)))
      (spelledMarked (Option.isSome_of_eq_some hts) h)))
    cases space? with
    | none =>
      obtain rfl := hqualifier.of_nil
      exact .refl _
    | some explicit =>
      obtain ⟨d₁, hspace, hqualifier⟩ := hqualifier.of_cons
      obtain ⟨d₂, hexplicit, hnil⟩ := hqualifier.of_cons
      obtain rfl := hnil.of_nil
      exact (Leads.symbol hspace (.inl (by decide))).trans (.symbol hexplicit (.inr (.space hname)))

/-- The symbols of annotations one behind the other. -/
theorem spelledEach {space : Symbol} : ∀ {as : List Annotation} {c d : Cursor},
    ( Annotation.types? cat space as).isSome → c.Spells ( Annotation.symbolsEach as) d →
      Leads cat (p.seek c) (p.seek d)
  | [], c, d, _, h => by
    obtain rfl := h.of_nil
    exact .refl _
  | a :: as, c, d, ht, h => by
    rw [ Annotation.types?, Option.isSome_bind, Option.any_eq_true] at ht
    obtain ⟨t, ha, ht⟩ := ht
    rw [Option.isSome_map] at ht
    obtain ⟨c₁, hfirst, hrest⟩ := h.of_append
    exact (spelled (Option.isSome_of_eq_some ha) hfirst).trans (spelledEach ht hrest)

/-- The symbols of annotations with marks in front of them. -/
theorem spelledMarked {space : Symbol} : ∀ {as : List Annotation} {c d : Cursor},
    ( Annotation.types? cat space as).isSome → c.Spells ( Annotation.symbolsMarked as) d →
      Leads cat (p.seek c) (p.seek d)
  | [], c, d, _, h => by
    obtain rfl := h.of_nil
    exact .refl _
  | a :: as, c, d, ht, h => by
    rw [ Annotation.types?, Option.isSome_bind, Option.any_eq_true] at ht
    obtain ⟨t, ha, ht⟩ := ht
    rw [Option.isSome_map] at ht
    obtain ⟨c₁, hfirst, hrest⟩ := h.of_append
    obtain ⟨c₂, hmark, hfirst⟩ := hfirst.of_cons
    exact (Leads.symbol hmark (.inl (by decide))).trans
      ((spelled (Option.isSome_of_eq_some ha) hfirst).trans (spelledMarked ht hrest))

end

/-- Whatever annotation is read. -/
theorem of_annotated {context t : Ty} {dynamism : Dynamism} {dynamic : Bool}
    (h : cat.annotation context space dynamism c = .ok (t, dynamic) d) :
    Leads cat (p.seek c) (p.seek d) := by
  cases dynamic with
  | true =>
    obtain ⟨-, isOptional, h, -⟩ := Catalogue.spells_dynamic h
    obtain ⟨c₁, hmark, h⟩ := h.of_append
    obtain ⟨c₂, hread, hnil⟩ := h.of_cons
    obtain rfl := hnil.of_nil
    exact (Leads.mark hmark).trans (.symbol hread (.inl (by decide)))
  | false =>
    obtain ⟨a, h, ht⟩ := Catalogue.exists_annotation h
    exact spelled (Option.isSome_of_eq_some ht) h

end Leads

end Progress

end Pictograph
