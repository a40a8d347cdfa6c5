import Pictograph.Catalogue.Annotation
import Pictograph.Proofs.Catalogue.CompatibilityOrder
import Pictograph.Proofs.Catalogue.Identities
import Pictograph.Proofs.Source.Spelling

/-!
# What annotations mean

An annotation is a tree. It is written as a word of symbols, and in a namespace of a catalogue it
denotes a type. A generic argument has no bracket behind it: the arguments of a declared type are
those marks that follow its name, and the arguments that are left out are the constraints of their
parameters. How the arguments that are written relate to the constraints does not matter: the reader
takes any annotation there, as long as there are not more of them than the class has parameters.

## Main definitions

* `Annotation`: the trees, without the dynamic class.
* `Annotation.symbols`: how an annotation is written.
* `Annotation.type?`: what it denotes.
* `Annotation.Part`: the annotations inside an annotation.
* `Annotation.Plain`: an annotation whose names are written like nothing else.

## Main results

* `Catalogue.exists_annotation`: the type that the reader returns is the one that some annotation
  spelled by the tokens it takes denotes.
* `Catalogue.annotation_generic_arguments`: of which arguments a class has in that type.
-/

namespace Pictograph

/-- A type annotation other than the dynamic class. -/
inductive Annotation where
  /-- A built-in type by its symbol. -/
  | builtIn (isOptional : Bool) (symbol : Symbol)
  /-- A callable without a return type. -/
  | action (isOptional : Bool) (arguments : List Annotation)
  /-- A callable with a return type. -/
  | function (isOptional : Bool) (arguments : List Annotation) (result : Annotation)
  /-- A declared type, with its namespace if that is written, and with generic arguments. -/
  | named (isOptional : Bool) (space? : Option Symbol) (name : Symbol)
      (arguments : List Annotation)

namespace Annotation

/-! ## Spelling -/

/-- The mark of an optional type. -/
def mark (isOptional : Bool) : List Symbol :=
  if isOptional then [Vocabulary.optionalMark] else []

/-- The explicit namespace of a name. -/
def qualifier : Option Symbol → List Symbol
  | none => []
  | some space => [Vocabulary.namespaceMark, space]

mutual

/-- The symbols that an annotation is written with. -/
def symbols : Annotation → List Symbol
  | builtIn isOptional symbol => mark isOptional ++ [symbol]
  | action isOptional arguments =>
    mark isOptional ++ Construct.blockOpen.spelling :: symbolsEach arguments
      ++ [Construct.blockClose.spelling]
  | function isOptional arguments result =>
    mark isOptional ++ Construct.blockOpen.spelling :: symbolsEach arguments
      ++ Vocabulary.returnArrow :: symbols result ++ [Construct.blockClose.spelling]
  | named isOptional space? name arguments =>
    mark isOptional ++ qualifier space? ++ name :: symbolsMarked arguments

/-- The symbols of the arguments of a callable. -/
def symbolsEach : List Annotation → List Symbol
  | [] => []
  | a :: rest => symbols a ++ symbolsEach rest

/-- The symbols of generic arguments, each with its mark. -/
def symbolsMarked : List Annotation → List Symbol
  | [] => []
  | a :: rest => Vocabulary.genericMark :: symbols a ++ symbolsMarked rest

end

/-! ## Meaning -/

/-- A declared type with the generic arguments that are written and, for those that are left out,
the constraints. Only classes have arguments, and no more than they have parameters. -/
def applied? (cat : Catalogue) (t : Ty) (written : List Ty) : Option Ty :=
  match cat.classOf? t with
  | none => if written = [] then some t else none
  | some c =>
    if written.length ≤ c.constraints.length then
      some (t.withArguments (written ++ c.constraints.drop written.length))
    else
      none

mutual

/-- The type that an annotation denotes in a namespace. An explicit namespace covers the generic
arguments, too. -/
def type? (cat : Catalogue) (space : Symbol) : Annotation → Option Ty
  | builtIn isOptional symbol => (Catalogue.builtIn? symbol).map (·.withOptional isOptional)
  | action isOptional arguments =>
    (types? cat space arguments).map fun ts ↦ (Ty.callable .nothingness ts).withOptional isOptional
  | function isOptional arguments result =>
    (types? cat space arguments).bind fun ts ↦
      (type? cat space result).map fun t ↦ (Ty.callable t ts).withOptional isOptional
  | named isOptional space? name arguments =>
    (cat.named? (space?.getD space) name).bind fun t ↦
      (types? cat (space?.getD space) arguments).bind fun ts ↦
        (applied? cat t ts).map (·.withOptional isOptional)

/-- The types that some annotations denote. -/
def types? (cat : Catalogue) (space : Symbol) : List Annotation → Option (List Ty)
  | [] => some []
  | a :: rest => (type? cat space a).bind fun t ↦ (types? cat space rest).map (t :: ·)

end

/-! ## Parts -/

/-- `b`, read in the namespace `space'`, is a part of `a`, read in `space`. -/
inductive Part (space' : Symbol) (b : Annotation) : (space : Symbol) → (a : Annotation) → Prop
  | itself : Part space' b space' b
  | inAction {space o as a} (ha : a ∈ as) (hb : Part space' b space a) :
      Part space' b space (action o as)
  | inFunction {space o as r a} (ha : a ∈ as) (hb : Part space' b space a) :
      Part space' b space (function o as r)
  | inResult {space o as r} (hb : Part space' b space r) : Part space' b space (function o as r)
  | inArgument {space o space? name as a} (ha : a ∈ as) (hb : Part space' b (space?.getD space) a) :
      Part space' b space (named o space? name as)

/-- A symbol that is read as a name where an annotation starts: it has no meaning of its own
there. -/
structure IsName (symbol : Symbol) : Prop where
  notDynamic : symbol ≠ Construct.dynamicClass.spelling
  notBuiltIn : Catalogue.builtIn? symbol = none
  notOpen : symbol ≠ Construct.blockOpen.spelling
  notQualifier : symbol ≠ Vocabulary.namespaceMark

/-- All names in an annotation that stand without a namespace are read as names. -/
inductive Plain : Annotation → Prop
  | builtIn {o symbol} : Plain (builtIn o symbol)
  | action {o as} (has : ∀ a ∈ as, Plain a) : Plain (action o as)
  | function {o as r} (has : ∀ a ∈ as, Plain a) (hr : Plain r) : Plain (function o as r)
  | qualified {o space name as} (has : ∀ a ∈ as, Plain a) : Plain (named o (some space) name as)
  | unqualified {o name as} (hname : IsName name) (has : ∀ a ∈ as, Plain a) :
      Plain (named o none name as)

variable {cat : Catalogue} {space space' : Symbol} {a b : Annotation} {as bs : List Annotation}
  {ts us : List Ty}

theorem isSome_of_types? (h : (types? cat space as).isSome) (ha : a ∈ as) :
    (type? cat space a).isSome := by
  induction as with
  | nil => exact absurd ha List.not_mem_nil
  | cons b as ih =>
    rw [types?, Option.isSome_bind, Option.any_eq_true] at h
    obtain ⟨t, ht, h⟩ := h
    rw [Option.isSome_map] at h
    obtain rfl | ha := List.mem_cons.mp ha
    · exact Option.isSome_of_eq_some ht
    · exact ih h ha

/-- The parts of an annotation that denotes a type denote types. -/
theorem Part.isSome (h : Part space' b space a) (ha : (type? cat space a).isSome) :
    (type? cat space' b).isSome := by
  induction h with
  | itself => exact ha
  | inAction hmem _ ih =>
    rw [type?, Option.isSome_map] at ha
    exact ih (isSome_of_types? ha hmem)
  | inFunction hmem _ ih =>
    rw [type?, Option.isSome_bind, Option.any_eq_true] at ha
    obtain ⟨ts, hts, -⟩ := ha
    exact ih (isSome_of_types? (Option.isSome_of_eq_some hts) hmem)
  | inResult _ ih =>
    rw [type?, Option.isSome_bind, Option.any_eq_true] at ha
    obtain ⟨ts, -, ha⟩ := ha
    rw [Option.isSome_map] at ha
    exact ih ha
  | inArgument hmem _ ih =>
    rw [type?, Option.isSome_bind, Option.any_eq_true] at ha
    obtain ⟨t, -, ha⟩ := ha
    rw [Option.isSome_bind, Option.any_eq_true] at ha
    obtain ⟨ts, hts, -⟩ := ha
    exact ih (isSome_of_types? (Option.isSome_of_eq_some hts) hmem)

end Annotation

/-! ## The reader takes annotations -/

namespace Catalogue

open Annotation

section

variable {cat : Catalogue} {context : Ty} {space : Symbol} {read : Reading Ty} {c d : Cursor}
  {t : Ty} {ts constraints : List Ty} {fuel : Nat} {isOptional : Bool}

/-- Whatever a reader returns is the type of some annotation that the tokens it took spell. -/
def Parses (cat : Catalogue) (space : Symbol) (read : Reading Ty) : Prop :=
  ∀ c t d, read c = .ok t d →
    ∃ a : Annotation, a.Plain ∧ c.Spells a.symbols d ∧ a.type? cat space = some t

/-- A mark that may be there. -/
theorem spells_mark {mark? : Option Token}
    (h : Reading.acceptSymbol Vocabulary.optionalMark c = .ok mark? d) :
    c.Spells (mark mark?.isSome) d := by
  obtain ⟨hsome, hread⟩ | ⟨rfl, rfl, -⟩ := Reading.acceptSymbol_ok h
  · rw [mark, if_pos hsome]
    exact .single hread
  · exact .nil

/-- The rest of a callable is arguments, perhaps a return type, and the end. -/
theorem exists_signature (hread : cat.Parses space read)
    (h : callableAnnotation read fuel ts c = .ok t d) :
    ∃ as us, (∀ a ∈ as, a.Plain) ∧ types? cat space as = some us ∧
      ((t = .callable .nothingness (ts ++ us) ∧
          c.Spells (symbolsEach as ++ [Construct.blockClose.spelling]) d)
        ∨ ∃ (r : Annotation) (u : Ty), r.Plain ∧ r.type? cat space = some u
          ∧ t = .callable u (ts ++ us) ∧
          c.Spells (symbolsEach as ++ Vocabulary.returnArrow :: r.symbols
            ++ [Construct.blockClose.spelling]) d) := by
  induction fuel generalizing ts c with
  | zero => cases h
  | succ fuel ih =>
    obtain ⟨closing?, c₁, hclosing, h'⟩ := Reading.bind_ok h
    obtain ⟨hsome, hclose⟩ | ⟨rfl, rfl, -⟩ := Reading.acceptSymbol_ok hclosing
    · rw [if_pos hsome] at h'
      cases h'
      refine ⟨[], [], List.forall_mem_nil _, rfl, .inl ⟨?_, .single hclose⟩⟩
      rw [List.append_nil]
    rw [if_neg (by decide)] at h'
    obtain ⟨arrow?, c₂, harrow, h₂⟩ := Reading.bind_ok h'
    obtain ⟨hsome, harrow⟩ | ⟨rfl, rfl, -⟩ := Reading.acceptSymbol_ok harrow
    · rw [if_pos hsome] at h₂
      obtain ⟨u, c₃, hu, h₃⟩ := Reading.bind_ok h₂
      obtain ⟨_, c₄, hclose, h₄⟩ := Reading.bind_ok h₃
      cases h₄
      obtain ⟨r, hplain, hr, hu⟩ := hread _ _ _ hu
      refine ⟨[], [], List.forall_mem_nil _, rfl, .inr ⟨r, u, hplain, hu, ?_, ?_⟩⟩
      · rw [List.append_nil]
      · exact .cons harrow (hr.append (.single (Reading.expectConstruct_ok hclose)))
    · rw [if_neg (by decide)] at h₂
      obtain ⟨u, c₁, hu, h₃⟩ := Reading.bind_ok h₂
      obtain ⟨a, hplain, ha, hu⟩ := hread _ _ _ hu
      obtain ⟨as, us, has, hus, hrest⟩ := ih h₃
      refine ⟨a :: as, u :: us, List.forall_mem_cons.mpr ⟨hplain, has⟩,
        by rw [types?, hu, hus]; rfl, ?_⟩
      rw [symbolsEach, List.append_cons ts u us]
      simp only [List.append_assoc] at hrest ⊢
      obtain ⟨rfl, hspells⟩ | ⟨r, v, hr, hv, rfl, hspells⟩ := hrest
      · exact .inl ⟨rfl, ha.append hspells⟩
      · exact .inr ⟨r, v, hr, hv, rfl, ha.append hspells⟩

/-- Where no mark of a generic argument follows, all arguments are the constraints. -/
theorem genericArguments_of_not_startsWith (h : ¬ c.StartsWith Vocabulary.genericMark) :
    genericArguments read constraints c = .ok constraints c := by
  induction constraints with
  | nil => rfl
  | cons constraint rest ih =>
    refine (Reading.bind_of_ok (Reading.acceptSymbol_of_not_startsWith h)).trans ?_
    exact (Reading.bind_of_ok (a := constraint) rfl).trans ((Reading.bind_of_ok ih).trans rfl)

/-- Generic arguments are those that are written, and the constraints of the other parameters. -/
theorem exists_genericArguments (hread : cat.Parses space read)
    (h : genericArguments read constraints c = .ok ts d) :
    ∃ as us, (∀ a ∈ as, a.Plain) ∧ types? cat space as = some us
      ∧ us.length ≤ constraints.length
      ∧ ts = us ++ constraints.drop us.length ∧ c.Spells (symbolsMarked as) d := by
  induction constraints generalizing c ts with
  | nil =>
    cases h
    exact ⟨[], [], List.forall_mem_nil _, rfl, Nat.le_refl 0, rfl, .nil⟩
  | cons constraint rest ih =>
    obtain ⟨mark?, c₁, hmark, h'⟩ := Reading.bind_ok h
    obtain ⟨hsome, hmark⟩ | ⟨rfl, rfl, hnot⟩ := Reading.acceptSymbol_ok hmark
    · rw [if_pos hsome] at h'
      obtain ⟨u, c₂, hu, h'⟩ := Reading.bind_ok h'
      obtain ⟨vs, c₃, hvs, h'⟩ := Reading.bind_ok h'
      cases h'
      obtain ⟨a, hplain, ha, hu⟩ := hread _ _ _ hu
      obtain ⟨as, us, has, hus, hlength, rfl, hspells⟩ := ih hvs
      refine ⟨a :: as, u :: us, List.forall_mem_cons.mpr ⟨hplain, has⟩,
        by rw [types?, hu, hus]; rfl, Nat.succ_le_succ hlength, rfl, ?_⟩
      exact .cons hmark (ha.append hspells)
    · cases h.symm.trans (genericArguments_of_not_startsWith hnot)
      exact ⟨[], [], List.forall_mem_nil _, rfl, Nat.zero_le _, rfl, .nil⟩

/-- The rest of a declared type is its generic arguments. -/
theorem exists_named {name : Symbol} {span : Span} (hread : cat.Parses space read)
    (h : cat.namedAnnotation read space name span c = .ok t d) :
    ∃ u as us, (∀ a ∈ as, a.Plain) ∧ cat.named? space name = some u
      ∧ types? cat space as = some us ∧ applied? cat u us = some t
      ∧ c.Spells (symbolsMarked as) d := by
  unfold namedAnnotation at h
  cases hu : cat.named? space name with
  | none =>
    rw [hu] at h
    cases h
  | some u =>
  simp only [hu] at h
  cases hclass : cat.classOf? u with
  | none =>
    rw [hclass] at h
    cases h
    refine ⟨t, [], [], List.forall_mem_nil _, rfl, rfl, ?_, .nil⟩
    rw [applied?, hclass]
    exact if_pos rfl
  | some k =>
  simp only [hclass] at h
  obtain ⟨vs, c₁, hvs, h⟩ := Reading.bind_ok h
  obtain ⟨as, us, has, hus, hlength, rfl, hspells⟩ := exists_genericArguments hread hvs
  obtain ⟨extra?, c₂, hextra, h'⟩ := Reading.bind_ok h
  obtain ⟨hsome, -⟩ | ⟨rfl, rfl, -⟩ := Reading.acceptSymbol_ok hextra
  · obtain ⟨extra, rfl⟩ := Option.isSome_iff_exists.mp hsome
    cases h'
  · cases h'
    refine ⟨u, as, us, has, rfl, hus, ?_, hspells⟩
    rw [applied?, hclass]
    exact if_pos hlength

/-- The reader of the annotations inside an annotation. -/
def nestedAnnotation (cat : Catalogue) (context : Ty) (fuel : Nat) (space : Symbol) : Reading Ty :=
  Prod.fst <$> cat.annotationWithin context fuel space .forbidden

/-- What the reader makes of an annotation behind the name that it starts with. -/
inductive ReadsBase (cat : Catalogue) (context : Ty) (fuel : Nat) (space : Symbol)
    (dynamism : Dynamism) (isOptional : Bool) (symbol : Symbol) (c : Cursor) :
    Ty × Bool → Cursor → Prop
  /-- The dynamic class. -/
  | dynamicClass {t : Ty} {span : Span} {d : Cursor}
      (hsymbol : symbol = Construct.dynamicClass.spelling)
      (h : dynamicAnnotation context dynamism isOptional span c = .ok t d) :
      ReadsBase cat context fuel space dynamism isOptional symbol c (t, true) d
  /-- A built-in type. -/
  | builtIn {t : Ty} (h : builtIn? symbol = some t) :
      ReadsBase cat context fuel space dynamism isOptional symbol c
        (t.withOptional isOptional, false) c
  /-- A callable. -/
  | callable {t : Ty} {d : Cursor} (hsymbol : symbol = Construct.blockOpen.spelling)
      (h : callableAnnotation (cat.nestedAnnotation context fuel space) (c.remaining + 1) [] c
        = .ok t d) :
      ReadsBase cat context fuel space dynamism isOptional symbol c
        (t.withOptional isOptional, false) d
  /-- A declared type by its namespace and its name. -/
  | qualified {explicit name : Symbol} {span : Span} {c₁ c₂ : Cursor} {t : Ty} {d : Cursor}
      (hsymbol : symbol = Vocabulary.namespaceMark) (hspace : c.Reads explicit c₁)
      (hname : c₁.Reads name c₂)
      (h : cat.namedAnnotation (cat.nestedAnnotation context fuel explicit) explicit name span c₂
        = .ok t d) :
      ReadsBase cat context fuel space dynamism isOptional symbol c
        (t.withOptional isOptional, false) d
  /-- A declared type by its name. -/
  | unqualified {t : Ty} {span : Span} {d : Cursor} (hsymbol : IsName symbol)
      (h : cat.namedAnnotation (cat.nestedAnnotation context fuel space) space symbol span c
        = .ok t d) :
      ReadsBase cat context fuel space dynamism isOptional symbol c
        (t.withOptional isOptional, false) d

/-- An annotation is a mark that may be there, a name, and what that name asks for. -/
theorem readsBase_of_annotationWithin {dynamism : Dynamism} {x : Ty × Bool}
    (h : cat.annotationWithin context (fuel + 1) space dynamism c = .ok x d) :
    ∃ isOptional symbol c₁ c₂, c.Spells (mark isOptional) c₁ ∧ c₁.Reads symbol c₂
      ∧ cat.ReadsBase context fuel space dynamism isOptional symbol c₂ x d := by
  obtain ⟨mark?, c₁, hmark, h⟩ := Reading.bind_ok h
  obtain ⟨⟨symbol, span⟩, c₂, hname, h⟩ := Reading.bind_ok h
  refine ⟨mark?.isSome, symbol, c₁, c₂, spells_mark hmark, Reading.name_ok hname, ?_⟩
  dsimp only at h
  by_cases hdynamic : symbol = Construct.dynamicClass.spelling
  · rw [if_pos hdynamic] at h
    obtain ⟨t, c₃, hclass, h⟩ := Reading.bind_ok h
    cases h
    exact .dynamicClass hdynamic hclass
  rw [if_neg hdynamic] at h
  cases hbuiltIn : builtIn? symbol with
  | some t =>
    rw [hbuiltIn] at h
    cases h
    exact .builtIn hbuiltIn
  | none =>
  rw [hbuiltIn] at h
  dsimp only at h
  by_cases hopen : symbol = Construct.blockOpen.spelling
  · rw [if_pos hopen] at h
    obtain ⟨_, _, hget, h⟩ := Reading.bind_ok h
    cases hget
    obtain ⟨t, c₃, ht, h⟩ := Reading.bind_ok h
    cases h
    exact .callable hopen ht
  rw [if_neg hopen] at h
  by_cases hspace : symbol = Vocabulary.namespaceMark
  · rw [if_pos hspace] at h
    obtain ⟨⟨explicit, _⟩, c₃, hexplicit, h⟩ := Reading.bind_ok h
    obtain ⟨⟨name, nameSpan⟩, c₄, hname, h⟩ := Reading.bind_ok h
    obtain ⟨t, c₅, ht, h⟩ := Reading.bind_ok h
    cases h
    exact .qualified hspace (Reading.name_ok hexplicit) (Reading.name_ok hname) ht
  rw [if_neg hspace] at h
  obtain ⟨t, c₃, ht, h⟩ := Reading.bind_ok h
  cases h
  exact .unqualified ⟨hdynamic, hbuiltIn, hopen, hspace⟩ ht

/-- Where the reader returns the dynamic class, that is allowed, the tokens it took spell it, and it
is the class of the context. -/
theorem spells_dynamicWithin {dynamism : Dynamism}
    (h : cat.annotationWithin context fuel space dynamism c = .ok (t, true) d) :
    dynamism = .allowed
      ∧ ∃ isOptional, c.Spells (mark isOptional ++ [Construct.dynamicClass.spelling]) d
        ∧ context.objectId?.isSome ∧ t = context.withOptional isOptional := by
  match fuel, h with
  | fuel + 1, h =>
    obtain ⟨isOptional, symbol, c₁, c₂, hmark, hname, hbase⟩ := readsBase_of_annotationWithin h
    cases hbase with
    | dynamicClass hsymbol hclass =>
      -- what is left are checks, which read nothing
      unfold dynamicAnnotation at hclass
      cases dynamism with
      | forbidden => cases hclass
      | allowed =>
        rw [if_neg (by decide)] at hclass
        split at hclass
        · cases hclass
        · next hcontext =>
          cases hclass
          exact ⟨rfl, isOptional, hmark.append (.single (hsymbol ▸ hname)),
            by simpa [Option.isSome_iff_ne_none] using hcontext, rfl⟩

/-- Where the dynamic class is forbidden, it is not returned. -/
theorem not_dynamic_of_forbidden {dynamic : Bool}
    (h : cat.annotationWithin context fuel space .forbidden c = .ok (t, dynamic) d) :
    dynamic = false := by
  cases dynamic with
  | false => rfl
  | true => cases (spells_dynamicWithin h).1

/-- The reader returns the types of annotations, unless it returns the dynamic class. -/
theorem exists_annotationWithin {dynamism : Dynamism}
    (h : cat.annotationWithin context fuel space dynamism c = .ok (t, false) d) :
    ∃ a : Annotation, a.Plain ∧ c.Spells a.symbols d ∧ a.type? cat space = some t := by
  induction fuel generalizing space dynamism c t d with
  | zero => cases h
  | succ fuel ih =>
    -- nested annotations are not dynamic, so they are covered by the induction
    have nested (space : Symbol) : cat.Parses space (cat.nestedAnnotation context fuel space) := by
      intro c t d hread
      obtain ⟨⟨t', dynamic⟩, hwithin, rfl⟩ := Reading.map_ok hread
      rw [not_dynamic_of_forbidden hwithin] at hwithin
      exact ih hwithin
    obtain ⟨isOptional, symbol, c₁, c₂, hmark, hname, hbase⟩ := readsBase_of_annotationWithin h
    cases hbase with
    | builtIn hbuiltIn =>
      refine ⟨.builtIn isOptional symbol, .builtIn, hmark.append (.single hname), ?_⟩
      rw [type?, hbuiltIn]
      rfl
    | callable hsymbol hcallable =>
      subst hsymbol
      obtain ⟨as, us, has, hus, ⟨rfl, hspells⟩ | ⟨r, v, hr, hv, rfl, hspells⟩⟩ :=
        exists_signature (nested space) hcallable
      · refine ⟨.action isOptional as, .action has, ?_, by rw [type?, hus]; rfl⟩
        rw [symbols, List.append_assoc]
        exact hmark.append (.cons hname hspells)
      · refine ⟨.function isOptional as r, .function has hr, ?_,
          by rw [type?, hus, Option.bind_some, hv]; rfl⟩
        rw [symbols, List.append_assoc, List.append_assoc]
        rw [List.append_assoc] at hspells
        exact hmark.append (.cons hname hspells)
    | @qualified explicit name _ c₃ c₄ _ _ hsymbol hexplicit hname' hnamed =>
      subst hsymbol
      obtain ⟨v, as, us, has, hv, hus, happlied, hspells⟩ := exists_named (nested explicit) hnamed
      refine ⟨.named isOptional (some explicit) name as, .qualified has, ?_, ?_⟩
      · have hqualifier : c₁.Spells (qualifier (some explicit)) c₃ :=
          .cons hname (.single hexplicit)
        exact (hmark.append hqualifier).append (.cons hname' hspells)
      · rw [type?, Option.getD_some, hv, Option.bind_some, hus, Option.bind_some, happlied]
        rfl
    | unqualified hsymbol hnamed =>
      obtain ⟨v, as, us, has, hv, hus, happlied, hspells⟩ := exists_named (nested space) hnamed
      refine ⟨.named isOptional none symbol as, .unqualified hsymbol has, ?_, ?_⟩
      · rw [symbols, qualifier, List.append_nil]
        exact hmark.append (.cons hname hspells)
      · rw [type?, Option.getD_none, hv, Option.bind_some, hus, Option.bind_some, happlied]
        rfl

/-- The reader of whole annotations, too. -/
theorem exists_plain_annotation {dynamism : Dynamism}
    (h : cat.annotation context space dynamism c = .ok (t, false) d) :
    ∃ a : Annotation, a.Plain ∧ c.Spells a.symbols d ∧ a.type? cat space = some t := by
  obtain ⟨_, _, hget, h⟩ := Reading.bind_ok h
  cases hget
  exact exists_annotationWithin h

theorem exists_annotation {dynamism : Dynamism}
    (h : cat.annotation context space dynamism c = .ok (t, false) d) :
    ∃ a : Annotation, c.Spells a.symbols d ∧ a.type? cat space = some t := by
  obtain ⟨a, -, ha⟩ := exists_plain_annotation h
  exact ⟨a, ha⟩

theorem spells_dynamic {dynamism : Dynamism}
    (h : cat.annotation context space dynamism c = .ok (t, true) d) :
    dynamism = .allowed
      ∧ ∃ isOptional, c.Spells (mark isOptional ++ [Construct.dynamicClass.spelling]) d
        ∧ context.objectId?.isSome ∧ t = context.withOptional isOptional := by
  obtain ⟨_, _, hget, h⟩ := Reading.bind_ok h
  cases hget
  exact spells_dynamicWithin h

/-! ## Generic arguments -/

/-- How the generic arguments of a class come from those that are written: there is one for each
parameter, those that are written come first, and the others are the constraints. So an argument
fits its constraint unless it is written against a constraint other than `anything`. -/
structure Fills (cat : Catalogue) (constraints written arguments : List Ty) : Prop where
  length : arguments.length = constraints.length
  isPrefix : written <+: arguments
  leftOut : ∀ i, written.length ≤ i → arguments[i]? = constraints[i]?
  fits : ∀ (i : Nat) (argument constraint : Ty), arguments[i]? = some argument →
    constraints[i]? = some constraint → cat.Complete constraint →
    (i < written.length → constraint.kind = .anything) → cat.fits argument constraint

theorem fills_drop {written : List Ty} (h : written.length ≤ constraints.length) :
    cat.Fills constraints written (written ++ constraints.drop written.length) := by
  have hleftOut (i : Nat) (hi : written.length ≤ i) :
      (written ++ constraints.drop written.length)[i]? = constraints[i]? := by
    rw [List.getElem?_append_right hi, List.getElem?_drop, Nat.add_sub_cancel' hi]
  refine ⟨?_, List.prefix_append _ _, hleftOut, ?_⟩
  · rw [List.length_append, List.length_drop, Nat.add_sub_cancel' h]
  · intro i argument constraint hargument hconstraint hcomplete hany
    obtain hi | hi := Nat.lt_or_ge i written.length
    · exact fits_iff.mpr (.anything (hany hi))
    · have heq : argument = constraint :=
        Option.some.inj (hargument.symm.trans ((hleftOut i hi).trans hconstraint))
      rw [heq]
      exact (fits_of_alike constraint constraint hcomplete (Ty.Alike.refl constraint)).1

/-- A name of a class with arguments that denotes a type denotes the class with filled in
arguments. -/
theorem exists_fills {o : Bool} {space? : Option Symbol} {name : Symbol} {as : List Annotation}
    {k : Class} (hsome : (type? cat space (.named o space? name as)).isSome)
    (hk : (cat.named? (space?.getD space) name).bind cat.classOf? = some k) :
    ∃ written arguments, types? cat (space?.getD space) as = some written
      ∧ type? cat space (.named o space? name as) = some ⟨.object k.id, o, arguments⟩
      ∧ cat.Fills k.constraints written arguments := by
  obtain ⟨u, hu, hclass⟩ := Option.bind_eq_some_iff.mp hk
  obtain ⟨id, hid, hfind⟩ := Option.bind_eq_some_iff.mp hclass
  rw [type?, hu, Option.bind_some, Option.isSome_bind, Option.any_eq_true] at hsome
  obtain ⟨written, hwritten, hsome⟩ := hsome
  rw [Option.isSome_map, applied?, hclass] at hsome
  dsimp only at hsome
  have hlength : written.length ≤ k.constraints.length := by
    by_contra hlt
    rw [if_neg hlt] at hsome
    exact absurd hsome Bool.false_ne_true
  refine ⟨written, _, hwritten, ?_, fills_drop hlength⟩
  rw [type?, hu, Option.bind_some, hwritten, Option.bind_some, applied?, hclass]
  dsimp only
  rw [if_pos hlength, Option.map_some, id_of_class? hfind, ← Ty.kind_of_objectId? hid]
  rfl

/-- **Generic arguments are complete, and constraints stand in for those left out.** A type that is
read and is not the dynamic class is the type of an annotation that the tokens spell, and every
class that is named anywhere inside this annotation has its arguments filled in from those that are
written with it. -/
theorem annotation_generic_arguments {dynamism : Dynamism}
    (h : cat.annotation context space dynamism c = .ok (t, false) d) :
    ∃ a : Annotation, c.Spells a.symbols d ∧ a.type? cat space = some t ∧
      ∀ space' o space? name as k, Part space' (.named o space? name as) space a →
        (cat.named? (space?.getD space') name).bind cat.classOf? = some k →
        ∃ written arguments, types? cat (space?.getD space') as = some written
          ∧ type? cat space' (.named o space? name as)
              = some ⟨.object k.id, o, arguments⟩
          ∧ cat.Fills k.constraints written arguments := by
  obtain ⟨a, hspells, ha⟩ := exists_annotation h
  refine ⟨a, hspells, ha, fun space' o space? name as k hpart hk ↦ ?_⟩
  exact exists_fills (hpart.isSome (Option.isSome_of_eq_some ha)) hk

end

end Catalogue

/-! ## A class with a constraint -/

namespace Sample

/-- A class 📦 with one generic parameter that stands for integers. -/
def crate : ClassDeclaration where
  space := Vocabulary.defaultNamespace
  name := ⟨0x1F4E6⟩
  constraints := [.integer]

/-- The catalogue of this class. -/
def crates : Catalogue := Catalogue.empty.addIfPossible (.ofClass crate)

end Sample

namespace Catalogue

/-- What `🍬 📦` is read as: the crate of the argument that is left out, an integer. -/
theorem annotation_generic_arguments_crate :
    let tokens := Cursor.identifiers [⟨0x1F36C⟩, ⟨0x1F4E6⟩] .nowhere
    Sample.crates.annotation .integer Vocabulary.defaultNamespace .forbidden (.start tokens)
      = .ok ((Ty.objectOf Sample.crate.typeId [.integer]).optional, false) ⟨tokens.reverse, []⟩
    ∧ ∃ a : Annotation, a.type? Sample.crates Vocabulary.defaultNamespace
        = some (Ty.objectOf Sample.crate.typeId [.integer]).optional := by
  intro tokens
  have h : Sample.crates.annotation .integer Vocabulary.defaultNamespace .forbidden (.start tokens)
      = .ok ((Ty.objectOf Sample.crate.typeId [.integer]).optional, false) ⟨tokens.reverse, []⟩ :=
    Reading.eq_ok_of_success? (by decide +kernel)
  obtain ⟨a, -, ha, -⟩ := annotation_generic_arguments h
  exact ⟨h, a, ha⟩

/-- Arguments that are written are not held against the constraints. `📦 🐚 🚀` is read as the crate
of a floating point number, which does not fit the constraint of the crate. -/
theorem annotation_against_constraint :
    let tokens := Cursor.identifiers [⟨0x1F4E6⟩, ⟨0x1F41A⟩, ⟨0x1F680⟩] .nowhere
    Sample.crates.Reachable
    ∧ Sample.crates.annotation .integer Vocabulary.defaultNamespace .forbidden (.start tokens)
      = .ok (.objectOf Sample.crate.typeId [.double], false) ⟨tokens.reverse, []⟩
    ∧ (Sample.crates.class? Sample.crate.typeId).map (·.constraints) = some [.integer]
    ∧ Sample.crates.fits .double .integer = false := by
  intro tokens
  refine ⟨Reachable.empty.addIfPossible _, Reading.eq_ok_of_success? ?_, ?_, ?_⟩
  · decide +kernel
  · decide +kernel
  · decide +kernel

end Catalogue

end Pictograph
