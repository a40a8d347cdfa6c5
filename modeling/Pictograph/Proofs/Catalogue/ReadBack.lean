import Pictograph.Proofs.Catalogue.Annotations

/-!
# Annotations read back

A type can be written as an annotation that leaves nothing out: every name with its namespace, every
callable with its return arrow, every class with all of its arguments. Reading this annotation ought
to return the type. It does so just if the reader never meets the mark of a generic argument behind
a class that has all of its arguments. The reader takes such a mark for a surplus argument of that
class, and does not ask whether a class around it still waits for one. So a class may be the last
generic argument of another, but no earlier one.

The proof follows the annotation. At each step there is a condition under which the reader goes on,
and if it fails the reader reports a surplus argument; the conditions of the steps add up.

## Main definitions

* `Catalogue.annotate?`: the annotation that writes a type and leaves nothing out.
* `Ty.Linear`: a type in which classes are generic arguments in the last place only.
* `Catalogue.Hinges`: a reader that succeeds under a condition, and else reports a surplus argument.

## Main results

* `Catalogue.type?_of_annotate?`: the annotation denotes the type.
* `Catalogue.Reachable.annotation_reads_back`: the reader returns the type, without anything behind
  it, just if the type is linear.
-/

namespace Pictograph

/-! ## Writing types -/

namespace Catalogue

open Annotation

/-- The annotation of a kind that has no generic arguments. -/
def annotateKind? (cat : Catalogue) (isOptional : Bool) : Ty.Kind → Option Annotation
  | .boolean => some (.builtIn isOptional Vocabulary.boolean)
  | .integer => some (.builtIn isOptional Vocabulary.integer)
  | .double => some (.builtIn isOptional Vocabulary.double)
  | .symbol => some (.builtIn isOptional Vocabulary.symbol)
  | .anything => some (.builtIn isOptional Vocabulary.anything)
  | .anyObject => some (.builtIn isOptional Vocabulary.anyObject)
  | .nothingness => some (.builtIn isOptional Vocabulary.nothingness)
  | .protocol id => (cat.protocol? id).map fun p ↦ .named isOptional (some p.space) p.name []
  | .enumeration id => (cat.enumeration? id).map fun e ↦ .named isOptional (some e.space) e.name []
  | .object _ | .callable | .parameter _ => none

mutual

/-- The annotation that writes a type and leaves nothing out. There is one for types that are fully
applied: the declared types in them are registered, classes have one argument for each parameter,
callables have a return type, other types have no arguments, and no generic parameter occurs. -/
def annotate? (cat : Catalogue) : Ty → Option Annotation
  | ⟨kind, isOptional, ts⟩ =>
    match kind with
    | .object id =>
      (cat.class? id).bind fun c ↦ (annotateEach? cat ts).bind fun as ↦
        if as.length = c.constraints.length then
          some (.named isOptional (some c.space) c.name as)
        else
          none
    | .callable =>
      match annotateEach? cat ts with
      | some (result :: arguments) => some (.function isOptional arguments result)
      | _ => none
    | kind => if ts = [] then cat.annotateKind? isOptional kind else none

/-- The annotations of some types. -/
def annotateEach? (cat : Catalogue) : List Ty → Option (List Annotation)
  | [] => some []
  | t :: ts => (annotate? cat t).bind fun a ↦ (annotateEach? cat ts).map (a :: ·)

end

end Catalogue

/-! ## Linear types -/

namespace Ty

mutual

/-- A type in which a class is a generic argument of a class in the last place only. -/
def Linear : Ty → Prop
  | ⟨kind, _, ts⟩ =>
    AllLinear ts ∧ ((∃ id, kind = .object id) → ∀ t ∈ ts.dropLast, t.objectId? = none)

/-- Lists of such types. -/
def AllLinear : List Ty → Prop
  | [] => True
  | t :: ts => Linear t ∧ AllLinear ts

end

/-- What it takes to read a type in full in front of a cursor. -/
def Readable (t : Ty) (d : Cursor) : Prop :=
  t.Linear ∧ (t.objectId?.isSome → ¬ d.StartsWith Vocabulary.genericMark)

/-- What it takes to read generic arguments in full in front of a cursor. -/
def AllReadable : List Ty → Cursor → Prop
  | [], _ => True
  | t :: ts, d =>
    t.Linear ∧ (t.objectId?.isSome → ts = [] ∧ ¬ d.StartsWith Vocabulary.genericMark)
      ∧ AllReadable ts d

theorem allReadable_iff {ts : List Ty} {d : Cursor} (hd : ¬ d.StartsWith Vocabulary.genericMark) :
    AllReadable ts d ↔ AllLinear ts ∧ ∀ t ∈ ts.dropLast, t.objectId? = none := by
  induction ts with
  | nil => simp [AllReadable, AllLinear]
  | cons t ts ih =>
    rw [AllReadable, AllLinear, ih]
    cases ts with
    | nil => simp [AllLinear, hd]
    | cons u us =>
      rw [List.dropLast_cons_cons, List.forall_mem_cons, ← Option.not_isSome_iff_eq_none]
      simp only [reduceCtorEq, false_and, imp_false]
      tauto

end Ty

namespace Catalogue

open Annotation

/-! ## Readers that succeed under a condition -/

section

variable {cat : Catalogue} {α β : Type} {P Q : Prop} {r : Reading α} {a : α} {b : β}
  {f : α → Reading β} {c d e : Cursor}

/-- A reader stops because a generic argument is left over. -/
def Surplus (cat : Catalogue) (r : Reading α) (c : Cursor) : Prop :=
  ∃ (t : Ty) (span : Span) (d : Cursor), r c = .error ((Cause.typeMismatch
    ("too many generic arguments for " ++ cat.typeName t)).at span) d

/-- Under a condition a reader returns `a` and gets from `c` to `d`, and if the condition fails it
stops because a generic argument is left over. -/
structure Hinges (cat : Catalogue) (P : Prop) (r : Reading α) (c : Cursor) (a : α) (d : Cursor) :
    Prop where
  success : P → r c = .ok a d
  surplus : ¬ P → cat.Surplus r c

namespace Hinges

theorem bind (h : cat.Hinges P r c a d) (h' : cat.Hinges Q (f a) d b e) :
    cat.Hinges (P ∧ Q) (r >>= f) c b e := by
  constructor
  · rintro ⟨hp, hq⟩
    exact (Reading.bind_of_ok (h.success hp)).trans (h'.success hq)
  · intro hn
    by_cases hp : P
    · obtain ⟨t, span, e', hthrow⟩ := h'.surplus fun hq ↦ hn ⟨hp, hq⟩
      exact ⟨t, span, e', (Reading.bind_of_ok (h.success hp)).trans hthrow⟩
    · obtain ⟨t, span, e', hthrow⟩ := h.surplus hp
      exact ⟨t, span, e', Reading.bind_of_error hthrow⟩

/-- Readers that do the same. -/
theorem of_eq {r' : Reading α} {c' : Cursor} (heq : r c = r' c') (h : cat.Hinges P r' c' a d) :
    cat.Hinges P r c a d := by
  constructor
  · exact fun hp ↦ heq.trans (h.success hp)
  · intro hp
    obtain ⟨t, span, e, hthrow⟩ := h.surplus hp
    exact ⟨t, span, e, heq.trans hthrow⟩

/-- A step that succeeds in any case. -/
theorem after (h : r c = .ok a d) (h' : cat.Hinges P (f a) d b e) :
    cat.Hinges P (r >>= f) c b e :=
  of_eq (Reading.bind_of_ok h) h'

theorem congr (h : cat.Hinges P r c a d) (hpq : P ↔ Q) : cat.Hinges Q r c a d :=
  ⟨fun hq ↦ h.success (hpq.mpr hq), fun hq ↦ h.surplus fun hp ↦ hq (hpq.mp hp)⟩

theorem of_ok (h : r c = .ok a d) : cat.Hinges True r c a d :=
  ⟨fun _ ↦ h, fun hn ↦ absurd trivial hn⟩

/-- What is done with the value does not matter. -/
theorem returning (h : cat.Hinges P r c a d) (g : α → β) :
    cat.Hinges P (r >>= fun a ↦ pure (g a)) c (g a) d :=
  (h.bind (f := fun a ↦ pure (g a)) (of_ok rfl)).congr (and_iff_left trivial)

theorem map (h : cat.Hinges P r c a d) (g : α → β) : cat.Hinges P (g <$> r) c (g a) d := by
  have heq : g <$> r = r >>= fun a ↦ pure (g a) := rfl
  rw [heq]
  exact h.returning g

end Hinges

end

/-! ## The cases of written types -/

/-- The symbols that an annotation which leaves nothing out starts with. -/
def openers : List Symbol :=
  [Vocabulary.optionalMark, Construct.blockOpen.spelling, Vocabulary.namespaceMark,
    Vocabulary.boolean, Vocabulary.integer, Vocabulary.double, Vocabulary.symbol,
    Vocabulary.anything, Vocabulary.anyObject, Vocabulary.nothingness]

/-- How a type of some kind, optional or not, is written with its generic arguments. -/
inductive Writes (cat : Catalogue) (isOptional : Bool) :
    Ty.Kind → List Ty → Annotation → Prop
  | builtIn {kind symbol} (hbuiltIn : builtIn? symbol = some (.plain kind))
      (hkind : ∀ id, kind ≠ .object id) (hopener : symbol ∈ openers) :
      Writes cat isOptional kind [] (.builtIn isOptional symbol)
  | declared {kind space name} (hnamed : cat.named? space name = some (.plain kind))
      (hkind : ∀ id, kind ≠ .object id) :
      Writes cat isOptional kind [] (.named isOptional (some space) name [])
  | object {id c ts as} (hc : cat.class? id = some c)
      (hnamed : cat.named? c.space c.name = some (.object id))
      (has : annotateEach? cat ts = some as) (hlength : as.length = c.constraints.length) :
      Writes cat isOptional (.object id) ts (.named isOptional (some c.space) c.name as)
  | callable {ts r as} (has : annotateEach? cat ts = some (r :: as)) :
      Writes cat isOptional .callable ts (.function isOptional as r)

section

variable {cat : Catalogue} {isOptional : Bool} {kind : Ty.Kind} {ts : List Ty} {a : Annotation}

theorem writes_of_annotateKind? (hcat : cat.Consistent)
    (h : cat.annotateKind? isOptional kind = some a) : cat.Writes isOptional kind [] a := by
  unfold annotateKind? at h
  split at h
  case h_8 id =>
    obtain ⟨p, hp, rfl⟩ := Option.map_eq_some_iff.mp h
    exact .declared (hcat.named?_of_protocol hp) nofun
  case h_9 id =>
    obtain ⟨e, he, rfl⟩ := Option.map_eq_some_iff.mp h
    exact .declared (hcat.named?_of_enumeration he) nofun
  case h_10 | h_11 | h_12 => cases h
  all_goals
    cases h
    exact .builtIn (by decide) nofun (by decide)

theorem writes_of_annotate? (hcat : cat.Consistent)
    (h : annotate? cat ⟨kind, isOptional, ts⟩ = some a) : cat.Writes isOptional kind ts a := by
  rw [annotate?.eq_def] at h
  dsimp only at h
  split at h
  · obtain ⟨c, hc, h⟩ := Option.bind_eq_some_iff.mp h
    obtain ⟨as, has, h⟩ := Option.bind_eq_some_iff.mp h
    split at h
    · next hlength =>
      cases h
      exact .object hc (hcat.named?_of_class hc) has hlength
    · cases h
  · split at h
    · next has =>
      cases h
      exact .callable has
    · cases h
  · split at h
    · next hts =>
      subst hts
      exact writes_of_annotateKind? hcat h
    · cases h

theorem annotateEach?_cons {t : Ty} {as : List Annotation}
    (h : annotateEach? cat (t :: ts) = some as) :
    ∃ a as', annotate? cat t = some a ∧ annotateEach? cat ts = some as' ∧ as = a :: as' := by
  rw [annotateEach?] at h
  obtain ⟨a, ha, h⟩ := Option.bind_eq_some_iff.mp h
  obtain ⟨as', has, rfl⟩ := Option.map_eq_some_iff.mp h
  exact ⟨a, as', ha, has, rfl⟩

theorem length_annotateEach? {as : List Annotation} (h : annotateEach? cat ts = some as) :
    as.length = ts.length := by
  induction ts generalizing as with
  | nil =>
    cases h
    rfl
  | cons t ts ih =>
    obtain ⟨a, as', -, has, rfl⟩ := annotateEach?_cons h
    rw [List.length_cons, List.length_cons, ih has]

/-- Only classes are class types. -/
theorem classOf?_plain (hkind : ∀ id, kind ≠ .object id) :
    cat.classOf? (.plain kind) = none := by
  cases kind with
  | object id => exact absurd rfl (hkind id)
  | _ => rfl

end

/-! ## Meaning -/

mutual

/-- The annotation that writes a type denotes the type, in any namespace. -/
theorem type?_of_annotate? {cat : Catalogue} (hcat : cat.Consistent) (space : Symbol) :
    (t : Ty) → {a : Annotation} → annotate? cat t = some a → a.type? cat space = some t
  | ⟨kind, isOptional, ts⟩, a, ha => by
    match writes_of_annotate? hcat ha with
    | .builtIn hbuiltIn _ _ =>
      rw [type?, hbuiltIn]
      rfl
    | .declared hnamed hkind =>
      rw [type?, Option.getD_some, hnamed, Option.bind_some, types?, Option.bind_some, applied?,
        classOf?_plain hkind]
      rfl
    | @Writes.object _ _ id c _ as hc hnamed has hlength =>
      have hts : as.length = ts.length := length_annotateEach? has
      have hdrop : c.constraints.drop ts.length = [] :=
        List.drop_eq_nil_of_le (Nat.le_of_eq (hlength.symm.trans hts))
      have hclass : cat.classOf? (.object id) = some c := hc
      rw [type?, Option.getD_some, hnamed, Option.bind_some,
        types?_of_annotateEach? hcat _ ts has, Option.bind_some, applied?, hclass]
      dsimp only
      rw [if_pos (Nat.le_of_eq (hts.symm.trans hlength)), hdrop, List.append_nil]
      rfl
    | .callable has =>
      have hts := types?_of_annotateEach? hcat space ts has
      rw [types?] at hts
      obtain ⟨u, hu, hts⟩ := Option.bind_eq_some_iff.mp hts
      obtain ⟨us, hus, rfl⟩ := Option.map_eq_some_iff.mp hts
      rw [type?, hus, Option.bind_some, hu]
      rfl

theorem types?_of_annotateEach? {cat : Catalogue} (hcat : cat.Consistent) (space : Symbol) :
    (ts : List Ty) → {as : List Annotation} → annotateEach? cat ts = some as →
      types? cat space as = some ts
  | [], as, has => by
    cases has
    rfl
  | t :: ts, as, has => by
    obtain ⟨a, as', ha, hrest, rfl⟩ := annotateEach?_cons has
    rw [types?, type?_of_annotate? hcat space t ha, Option.bind_some,
      types?_of_annotateEach? hcat space ts hrest]
    rfl

end

/-! ## Reading one part after the other -/

section

variable {cat : Catalogue} {read : Reading Ty} {t : Ty} {ts constraints : List Ty}
  {a r : Annotation} {as : List Annotation} {c d : Cursor} {fuel : Nat}

/-- A reader reads an annotation back, as far as there are not too many generic arguments. -/
structure ReadsBack (cat : Catalogue) (read : Reading Ty) (t : Ty) (a : Annotation) : Prop where
  opener : ∃ s ∈ openers, ∃ symbols, a.symbols = s :: symbols
  hinges : ∀ c d, c.Spells a.symbols d → cat.Hinges (t.Readable d) read c t d

/-- In front of an annotation there is neither the end of a callable, nor an arrow, nor the mark of
a generic argument. -/
theorem not_startsWith_of_opener {s : Symbol} {symbols : List Symbol} (hs : s ∈ openers)
    (h : c.Spells (s :: symbols) d) : ¬ c.StartsWith Construct.blockClose.spelling
      ∧ ¬ c.StartsWith Vocabulary.returnArrow ∧ ¬ c.StartsWith Vocabulary.genericMark := by
  rw [h.startsWith_iff, h.startsWith_iff, h.startsWith_iff]
  clear h
  revert s
  decide

/-- What is read behind a type that no mark of a generic argument follows. -/
theorem readable_iff (hd : ¬ d.StartsWith Vocabulary.genericMark) : t.Readable d ↔ t.Linear :=
  and_iff_left fun _ ↦ hd

/-- The rest of a callable with its return type is read back. -/
theorem hinges_callable (us : List Ty) (hts : List.Forall₂ (cat.ReadsBack read) ts as)
    (hr : cat.ReadsBack read t r) (hfuel : as.length < fuel)
    (h : c.Spells (symbolsEach as ++ Vocabulary.returnArrow :: r.symbols
      ++ [Construct.blockClose.spelling]) d) :
    cat.Hinges (Ty.AllLinear ts ∧ t.Linear) (r := callableAnnotation read fuel us) c
      (.callable t (us ++ ts)) d := by
  obtain ⟨fuel, rfl⟩ := Nat.exists_eq_succ_of_ne_zero (Nat.ne_zero_of_lt hfuel)
  induction hts generalizing us c fuel with
  | nil =>
    rw [symbolsEach, List.nil_append, List.cons_append] at h
    have hclose : ¬ c.StartsWith Construct.blockClose.spelling := by
      rw [h.startsWith_iff]
      decide
    obtain ⟨c₁, harrow, h⟩ := h.of_cons
    obtain ⟨c₂, hresult, h⟩ := h.of_append
    have hmark : ¬ c₂.StartsWith Vocabulary.genericMark := by
      rw [h.startsWith_iff]
      decide
    obtain ⟨c₃, hend, h⟩ := h.of_cons
    obtain rfl := h.of_nil
    obtain ⟨arrow, haccept⟩ := Reading.acceptSymbol_of_reads harrow
    obtain ⟨closing, hexpect⟩ : ∃ t, Reading.expectConstruct .blockClose
        Construct.blockClose.spelling c₂ = .ok t c₃ :=
      Reading.expectConstruct_of_reads (by decide) hend
    refine .after (Reading.acceptSymbol_of_not_startsWith hclose) (.after haccept ?_)
    rw [List.append_nil, Ty.AllLinear, true_and]
    refine ((hr.hinges c₁ c₂ hresult).bind (Q := True) ?_).congr
      ((and_iff_left trivial).trans (readable_iff hmark))
    exact .after hexpect (.of_ok rfl)
  | @cons u a ts as hu hts ih =>
    rw [symbolsEach, List.append_assoc, List.append_assoc] at h
    obtain ⟨s, hs, symbols, hsymbols⟩ := hu.opener
    obtain ⟨hclose, harrow, -⟩ := not_startsWith_of_opener hs (hsymbols ▸ h)
    obtain ⟨c₁, hargument, h⟩ := h.of_append
    rw [← List.append_assoc] at h
    have hmark : ¬ c₁.StartsWith Vocabulary.genericMark := by
      cases hts with
      | nil =>
        rw [h.startsWith_iff]
        decide
      | cons hu' _ =>
        obtain ⟨s', hs', symbols', hsymbols'⟩ := hu'.opener
        rw [symbolsEach, hsymbols'] at h
        exact (not_startsWith_of_opener hs' h).2.2
    refine .after (Reading.acceptSymbol_of_not_startsWith hclose)
      (.after (Reading.acceptSymbol_of_not_startsWith harrow) ?_)
    rw [List.append_cons, Ty.AllLinear, and_assoc, ← readable_iff hmark]
    refine (hu.hinges c c₁ hargument).bind ?_
    obtain ⟨fuel, rfl⟩ := Nat.exists_eq_succ_of_ne_zero
      (Nat.ne_zero_of_lt (Nat.lt_of_succ_lt_succ hfuel))
    exact ih _ h fuel (Nat.lt_of_succ_lt_succ hfuel)

/-- Generic arguments are read back, one for each parameter. -/
theorem hinges_genericArguments (hts : List.Forall₂ (cat.ReadsBack read) ts as)
    (hlength : as.length = constraints.length) (h : c.Spells (symbolsMarked as) d) :
    cat.Hinges (Ty.AllReadable ts d) (genericArguments read constraints) c ts d := by
  induction hts generalizing constraints c with
  | nil =>
    obtain rfl := List.length_eq_zero_iff.mp hlength.symm
    obtain rfl := h.of_nil
    exact .of_ok rfl
  | @cons t a ts as ht hts ih =>
    obtain ⟨constraint, rest, rfl⟩ := List.exists_cons_of_length_eq_add_one hlength.symm
    rw [symbolsMarked, List.cons_append] at h
    obtain ⟨c₁, hmark, h⟩ := h.of_cons
    obtain ⟨c₂, hargument, h⟩ := h.of_append
    -- behind the argument there is the next mark or, if it is the last, whatever follows
    have hnext : c₂.StartsWith Vocabulary.genericMark
        ↔ ¬ (ts = [] ∧ ¬ d.StartsWith Vocabulary.genericMark) := by
      cases hts with
      | nil =>
        obtain rfl := h.of_nil
        tauto
      | cons _ _ =>
        rw [symbolsMarked, List.cons_append] at h
        rw [h.startsWith_iff]
        simp
    obtain ⟨mark, haccept⟩ := Reading.acceptSymbol_of_reads hmark
    have hrest := (ih (Nat.succ.inj hlength) h).returning (t :: ·)
    refine .after haccept (((ht.hinges c₁ c₂ hargument).bind hrest).congr ?_)
    rw [Ty.AllReadable, Ty.Readable, hnext, not_not, and_assoc]

/-- A class is read back, unless the mark of one more generic argument follows. -/
theorem hinges_class {id : TypeId} {k : Class} {space name : Symbol} (span : Span)
    (hnamed : cat.named? space name = some (.object id)) (hk : cat.class? id = some k)
    (hts : List.Forall₂ (cat.ReadsBack read) ts as) (hlength : as.length = k.constraints.length)
    (h : c.Spells (symbolsMarked as) d) :
    cat.Hinges (Ty.AllReadable ts d ∧ ¬ d.StartsWith Vocabulary.genericMark)
      (cat.namedAnnotation read space name span) c (.objectOf id ts) d := by
  have hclass : cat.classOf? (.object id) = some k := hk
  unfold namedAnnotation
  rw [hnamed]
  dsimp only
  rw [hclass]
  refine (hinges_genericArguments hts hlength h).bind ?_
  constructor
  · intro hmark
    exact (Reading.bind_of_ok (Reading.acceptSymbol_of_not_startsWith hmark)).trans rfl
  · intro hmark
    obtain ⟨e, hmark⟩ := not_not.mp hmark
    obtain ⟨extra, haccept⟩ := Reading.acceptSymbol_of_reads hmark
    exact ⟨.object id, extra.span, e, (Reading.bind_of_ok haccept).trans rfl⟩

/-- Other declared types are read back in any case. -/
theorem namedAnnotation_plain {kind : Ty.Kind} {space name : Symbol} {span : Span}
    (hnamed : cat.named? space name = some (.plain kind)) (hkind : ∀ id, kind ≠ .object id) :
    cat.namedAnnotation read space name span c = .ok (.plain kind) c := by
  unfold namedAnnotation
  rw [hnamed]
  dsimp only
  rw [classOf?_plain hkind]
  rfl

end

/-! ## Reading an annotation -/

section

variable (cat : Catalogue) (context : Ty) (fuel : Nat) (space : Symbol) (dynamism : Dynamism)
  {c c₁ c₂ d : Cursor} {isOptional : Bool} {symbol : Symbol}

theorem exists_mark (h : c.Spells (mark isOptional) c₁) (hread : c₁.Reads symbol c₂)
    (hsymbol : symbol ≠ Vocabulary.optionalMark) : ∃ mark?,
      Reading.acceptSymbol Vocabulary.optionalMark c = .ok mark? c₁
        ∧ mark?.isSome = isOptional := by
  cases isOptional with
  | false =>
    obtain rfl := h.of_nil
    refine ⟨none, Reading.acceptSymbol_of_not_startsWith ?_, rfl⟩
    rintro ⟨_, hread'⟩
    exact hsymbol (hread.symbol_eq hread')
  | true =>
    obtain ⟨d, hmark, h⟩ := h.of_cons
    obtain rfl := h.of_nil
    obtain ⟨mark, haccept⟩ := Reading.acceptSymbol_of_reads hmark
    exact ⟨some mark, haccept, rfl⟩

/-- A built-in type is read at once. -/
theorem annotationWithin_builtIn {u : Ty}
    (h : c.Spells (builtIn isOptional symbol).symbols d)
    (hbuiltIn : builtIn? symbol = some u) :
    cat.annotationWithin context (fuel + 1) space dynamism c
      = .ok (u.withOptional isOptional, false) d := by
  obtain ⟨c₁, hmark, h⟩ := h.of_append
  obtain ⟨c₂, hread, h⟩ := h.of_cons
  obtain rfl := h.of_nil
  have hdynamic : symbol ≠ Construct.dynamicClass.spelling := by
    rintro rfl
    cases hbuiltIn
  obtain ⟨mark?, haccept, rfl⟩ := exists_mark hmark hread (by rintro rfl; cases hbuiltIn)
  obtain ⟨span, hname⟩ := Reading.name_of_reads hread
  refine (Reading.bind_of_ok haccept).trans ((Reading.bind_of_ok hname).trans ?_)
  dsimp only
  rw [if_neg hdynamic, hbuiltIn]
  rfl

/-- A callable is read from its opening on. -/
theorem annotationWithin_function {as : List Annotation} {r : Annotation}
    (h : c.Spells (function isOptional as r).symbols d) : ∃ c', c'.Spells
        (symbolsEach as ++ Vocabulary.returnArrow :: r.symbols ++ [Construct.blockClose.spelling]) d
      ∧ cat.annotationWithin context (fuel + 1) space dynamism c
        = (do
            let t ← callableAnnotation (cat.nestedAnnotation context fuel space)
              (c'.remaining + 1) []
            return (t.withOptional isOptional, false) : Reading (Ty × Bool)) c' := by
  rw [symbols, List.append_assoc, List.append_assoc, List.cons_append] at h
  obtain ⟨c₁, hmark, h⟩ := h.of_append
  obtain ⟨c₂, hread, h⟩ := h.of_cons
  rw [← List.append_assoc] at h
  refine ⟨c₂, h, ?_⟩
  obtain ⟨mark?, haccept, rfl⟩ := exists_mark hmark hread (by decide)
  obtain ⟨span, hname⟩ := Reading.name_of_reads hread
  have hbuiltIn : builtIn? Construct.blockOpen.spelling = none := by decide
  refine (Reading.bind_of_ok haccept).trans ((Reading.bind_of_ok hname).trans ?_)
  dsimp only
  rw [if_neg (by decide), hbuiltIn]
  dsimp only
  rw [if_pos rfl]
  rfl

/-- A qualified name is read with its namespace. -/
theorem annotationWithin_qualified {explicit name : Symbol} {as : List Annotation}
    (h : c.Spells (named isOptional (some explicit) name as).symbols d) :
    ∃ c' span, c'.Spells (symbolsMarked as) d
      ∧ cat.annotationWithin context (fuel + 1) space dynamism c
        = (cat.namedAnnotation (cat.nestedAnnotation context fuel explicit) explicit name span
            >>= fun t ↦ pure (t.withOptional isOptional, false)) c' := by
  obtain ⟨c₄, h, hname⟩ := h.of_append
  obtain ⟨c₁, hmark, hqualifier⟩ := h.of_append
  obtain ⟨c₂, hread, hqualifier⟩ := hqualifier.of_cons
  obtain ⟨c₃, hexplicit, hqualifier⟩ := hqualifier.of_cons
  obtain rfl := hqualifier.of_nil
  obtain ⟨c₅, hname, harguments⟩ := hname.of_cons
  obtain ⟨mark?, haccept, rfl⟩ := exists_mark hmark hread (by decide)
  obtain ⟨span, hspace⟩ := Reading.name_of_reads hread
  obtain ⟨_, hexplicit⟩ := Reading.name_of_reads hexplicit
  obtain ⟨nameSpan, hname⟩ := Reading.name_of_reads hname
  have hbuiltIn : builtIn? Vocabulary.namespaceMark = none := by decide
  refine ⟨c₅, nameSpan, harguments, ?_⟩
  refine (Reading.bind_of_ok haccept).trans ((Reading.bind_of_ok hspace).trans ?_)
  dsimp only
  rw [if_neg (by decide), hbuiltIn]
  dsimp only
  rw [if_neg (by decide), if_pos rfl]
  refine (Reading.bind_of_ok hexplicit).trans ?_
  dsimp only
  refine (Reading.bind_of_ok hname).trans ?_
  rfl

end

/-! ## All types -/

section

variable {cat : Catalogue} {t : Ty} {ts : List Ty} {a : Annotation} {as : List Annotation}
  {kind : Ty.Kind} {isOptional : Bool} {id : TypeId} {d : Cursor}

theorem exists_opener (hcat : cat.Consistent) (h : annotate? cat t = some a) :
    ∃ s ∈ openers, ∃ symbols, a.symbols = s :: symbols := by
  have hmarked {symbol : Symbol} {isOptional : Bool} {symbols : List Symbol}
      (hsymbol : symbol ∈ openers) :
      ∃ s ∈ openers, ∃ rest, mark isOptional ++ symbol :: symbols = s :: rest := by
    cases isOptional with
    | false => exact ⟨symbol, hsymbol, symbols, rfl⟩
    | true => exact ⟨Vocabulary.optionalMark, List.mem_cons_self, symbol :: symbols, rfl⟩
  obtain ⟨kind, isOptional, ts⟩ := t
  cases writes_of_annotate? hcat h with
  | builtIn _ _ hopener => exact hmarked hopener
  | declared _ _ | object _ _ _ _ =>
    rw [symbols, qualifier, List.append_assoc]
    exact hmarked (by decide)
  | callable _ =>
    rw [symbols, List.append_assoc, List.append_assoc]
    exact hmarked (by decide)

theorem length_symbols_pos (a : Annotation) : 0 < a.symbols.length := by
  cases a <;> simp only [symbols, List.length_append, List.length_cons] <;> omega

theorem length_le_symbolsEach (as : List Annotation) : as.length ≤ (symbolsEach as).length := by
  induction as with
  | nil => exact Nat.le_refl 0
  | cons a as ih =>
    have ha := length_symbols_pos a
    rw [symbolsEach, List.length_append, List.length_cons]
    omega

theorem length_symbols_le_each (h : a ∈ as) : a.symbols.length ≤ (symbolsEach as).length := by
  induction as with
  | nil => exact absurd h List.not_mem_nil
  | cons b as ih =>
    rw [symbolsEach, List.length_append]
    obtain rfl | h := List.mem_cons.mp h
    · exact Nat.le_add_right _ _
    · exact Nat.le_add_left_of_le (ih h)

theorem length_symbols_le_marked (h : a ∈ as) : a.symbols.length ≤ (symbolsMarked as).length := by
  induction as with
  | nil => exact absurd h List.not_mem_nil
  | cons b as ih =>
    rw [symbolsMarked, List.length_append, List.length_cons]
    obtain rfl | h := List.mem_cons.mp h
    · omega
    · exact Nat.le_add_left_of_le (ih h)

theorem readable_object_iff : (⟨.object id, isOptional, ts⟩ : Ty).Readable d
    ↔ Ty.AllReadable ts d ∧ ¬ d.StartsWith Vocabulary.genericMark := by
  have hid : (⟨.object id, isOptional, ts⟩ : Ty).objectId?.isSome := rfl
  rw [Ty.Readable, Ty.Linear, forall_prop_of_true hid, forall_prop_of_true ⟨id, rfl⟩]
  exact and_congr_left fun hd ↦ (Ty.allReadable_iff hd).symm

theorem readable_iff_of_ne_object (hkind : ∀ id, kind ≠ .object id) :
    (⟨kind, isOptional, ts⟩ : Ty).Readable d ↔ Ty.AllLinear ts := by
  have hid : ¬ (⟨kind, isOptional, ts⟩ : Ty).objectId?.isSome := by
    intro hsome
    obtain ⟨id, hid⟩ := Option.isSome_iff_exists.mp hsome
    exact hkind id (Ty.kind_of_objectId? hid)
  have hclass : ¬ ∃ id, kind = .object id := fun ⟨id, h⟩ ↦ hkind id h
  rw [Ty.Readable, Ty.Linear, forall_prop_of_false hid, forall_prop_of_false hclass, and_true,
    and_true]

end

mutual

/-- Reading the annotation of a type hinges on whether the type is readable there. -/
theorem hinges_annotationWithin {cat : Catalogue} (hcat : cat.Consistent) (context : Ty) :
    (t : Ty) → {a : Annotation} → annotate? cat t = some a → {fuel : Nat} → {space : Symbol} →
      {dynamism : Dynamism} → {c d : Cursor} → a.symbols.length ≤ fuel → c.Spells a.symbols d →
      cat.Hinges (t.Readable d) (cat.annotationWithin context fuel space dynamism) c (t, false) d
  | ⟨kind, isOptional, ts⟩, a, ha, fuel, space, dynamism, c, d, hfuel, h => by
    obtain ⟨fuel, rfl⟩ := Nat.exists_eq_succ_of_ne_zero
      (Nat.ne_of_gt (Nat.lt_of_lt_of_le (length_symbols_pos a) hfuel))
    match writes_of_annotate? hcat ha with
    | .builtIn hbuiltIn hkind hopener =>
      refine (Hinges.of_ok
        (annotationWithin_builtIn cat context fuel space dynamism h hbuiltIn)).congr ?_
      rw [readable_iff_of_ne_object hkind, Ty.AllLinear]
    | .declared hnamed hkind =>
      obtain ⟨c', span, hend, heq⟩ :=
        annotationWithin_qualified cat context fuel space dynamism h
      obtain rfl := hend.of_nil
      refine .of_eq heq (.after (namedAnnotation_plain hnamed hkind) ((Hinges.of_ok rfl).congr ?_))
      rw [readable_iff_of_ne_object hkind, Ty.AllLinear]
    | @Writes.object _ _ _ k _ _ hk hnamed has hlength =>
      obtain ⟨c', span, harguments, heq⟩ :=
        annotationWithin_qualified cat context fuel space dynamism h
      rw [symbols, List.length_append, List.length_cons] at hfuel
      have hts : List.Forall₂ (cat.ReadsBack (cat.nestedAnnotation context fuel k.space)) ts _ :=
        readsBack_each hcat context ts has fun a ha ↦ by
          have hle := length_symbols_le_marked ha
          omega
      have hclass := hinges_class span hnamed hk hts hlength harguments
      exact .of_eq heq ((hclass.returning fun t ↦ (t.withOptional isOptional, false)).congr
        readable_object_iff.symm)
    | @Writes.callable _ _ _ r as has =>
      obtain ⟨c', hsignature, heq⟩ :=
        annotationWithin_function cat context fuel space dynamism h
      rw [symbols, List.length_append, List.length_append, List.length_append, List.length_cons,
        List.length_cons] at hfuel
      have hts : List.Forall₂ (cat.ReadsBack (cat.nestedAnnotation context fuel space)) ts _ :=
        readsBack_each hcat context ts has fun a ha ↦ by
          obtain rfl | ha := List.mem_cons.mp ha
          · omega
          · have hle := length_symbols_le_each ha
            omega
      obtain ⟨u, us, hu, hus, rfl⟩ := List.forall₂_cons_right_iff.mp hts
      have hfuel : as.length < c'.remaining + 1 := by
        have hle := length_le_symbolsEach as
        rw [hsignature.remaining, List.length_append, List.length_append]
        omega
      have hrest := hinges_callable [] hus hu hfuel hsignature
      have hkind : ∀ id : TypeId, Ty.Kind.callable ≠ .object id := nofun
      refine .of_eq heq ((hrest.returning fun t ↦ (t.withOptional isOptional, false)).congr ?_)
      rw [readable_iff_of_ne_object hkind, Ty.AllLinear, and_comm]

/-- The annotations inside an annotation are read back. -/
theorem readsBack_each {cat : Catalogue} (hcat : cat.Consistent) (context : Ty) :
    (ts : List Ty) → {as : List Annotation} → annotateEach? cat ts = some as → {fuel : Nat} →
      {space : Symbol} → (∀ a ∈ as, a.symbols.length ≤ fuel) →
      List.Forall₂ (cat.ReadsBack (cat.nestedAnnotation context fuel space)) ts as
  | [], as, has, _, _, _ => by
    cases has
    exact .nil
  | t :: ts, as, has, fuel, space, hfuel => by
    obtain ⟨a, as', ha, hrest, rfl⟩ := annotateEach?_cons has
    obtain ⟨hlength, hfuel⟩ := List.forall_mem_cons.mp hfuel
    refine .cons ⟨exists_opener hcat ha, fun c d h ↦ ?_⟩
      (readsBack_each hcat context ts hrest hfuel)
    exact (hinges_annotationWithin hcat context t ha hlength h).map Prod.fst

end

/-- **Annotations are read back just if they are linear.** The annotation that writes a type and
leaves nothing out denotes the type in every namespace. In front of anything but one more generic
argument the reader takes all of its symbols and returns the type, if classes are generic arguments
in the last place only; otherwise it stops with a generic argument that is left over. -/
theorem Reachable.annotation_reads_back {cat : Catalogue} (h : cat.Reachable) {t : Ty}
    {a : Annotation} (ha : cat.annotate? t = some a) {c d : Cursor} (hspells : c.Spells a.symbols d)
    (hd : ¬ d.StartsWith Vocabulary.genericMark) (context : Ty) (space : Symbol)
    (dynamism : Dynamism) :
    a.type? cat space = some t
    ∧ (t.Linear → cat.annotation context space dynamism c = .ok (t, false) d)
    ∧ (¬ t.Linear → ∃ (u : Ty) (span : Span) (e : Cursor),
        cat.annotation context space dynamism c = .error ((Cause.typeMismatch
          ("too many generic arguments for " ++ cat.typeName u)).at span) e) := by
  have hfuel : a.symbols.length ≤ c.remaining + 1 := by
    rw [hspells.remaining]
    omega
  have hinges : cat.Hinges (t.Readable d)
      (cat.annotationWithin context (c.remaining + 1) space dynamism) c (t, false) d :=
    hinges_annotationWithin h.consistent context t ha hfuel hspells
  have hinges : cat.Hinges t.Linear (cat.annotation context space dynamism) c (t, false) d :=
    (Hinges.after (r := get) rfl hinges).congr (readable_iff hd)
  exact ⟨type?_of_annotate? h.consistent space t ha, hinges.success, hinges.surplus⟩

end Catalogue

/-! ## A class with two parameters -/

namespace Sample

/-- A class 🐱 without parameters. -/
def cat : ClassDeclaration where
  space := Vocabulary.defaultNamespace
  name := ⟨0x1F431⟩

/-- A class 👥 with two generic parameters. -/
def couple : ClassDeclaration where
  space := Vocabulary.defaultNamespace
  name := ⟨0x1F465⟩
  constraints := [.anything, .anything]

/-- The catalogue of both classes. -/
def couples : Catalogue :=
  (Catalogue.empty.addIfPossible (.ofClass cat)).addIfPossible (.ofClass couple)

/-- A callable and an optional 🐱, coupled. -/
def linearCouple : Ty :=
  .objectOf couple.typeId
    [.callable .integer [.object cat.typeId], (Ty.object cat.typeId).optional]

/-- A 🐱 and an integer, coupled. -/
def crossedCouple : Ty := .objectOf couple.typeId [.object cat.typeId, .integer]

end Sample

namespace Catalogue

theorem Reachable.couples : Sample.couples.Reachable :=
  (Reachable.empty.addIfPossible (.ofClass Sample.cat)).addIfPossible (.ofClass Sample.couple)

/-- The optional class in the last place is read back, behind a callable from the same class. -/
theorem Reachable.annotation_reads_back_couple :
    ∃ a, Sample.couples.annotate? Sample.linearCouple = some a
      ∧ Sample.linearCouple.Linear
      ∧ Sample.couples.annotation .integer ⟨0x1F535⟩ .forbidden
          (.start (Cursor.identifiers a.symbols .nowhere))
        = .ok (Sample.linearCouple, false)
            ⟨(Cursor.identifiers a.symbols .nowhere).reverse ++ [], []⟩ := by
  obtain ⟨a, ha⟩ : ∃ a, Sample.couples.annotate? Sample.linearCouple = some a :=
    Option.isSome_iff_exists.mp (by decide +kernel)
  have hlinear : Sample.linearCouple.Linear := by
    simp [Sample.linearCouple, Ty.objectOf, Ty.callable, Ty.object, Ty.optional, Ty.withOptional,
      Ty.plain, Ty.integer, Ty.Linear, Ty.AllLinear, Ty.objectId?]
  have hspells := Cursor.spells_identifiers a.symbols .nowhere [] []
  rw [List.append_nil] at hspells
  have hend : ¬ Cursor.StartsWith ⟨(Cursor.identifiers a.symbols .nowhere).reverse ++ [], []⟩
      Vocabulary.genericMark := by
    rintro ⟨_, t, ht, -⟩
    cases ht
  obtain ⟨-, hreads, -⟩ := Reachable.couples.annotation_reads_back ha hspells hend _ _ _
  exact ⟨a, ha, hlinear, hreads hlinear⟩

/-- The class in the first place is not read back. The mark of the second argument in
`🔶 🔴 👥 🐚 🔶 🔴 🐱 🐚 🚂` is taken for a surplus argument of 🐱. -/
theorem annotation_crossed_couple :
    let symbols : List Symbol := [⟨0x1F536⟩, ⟨0x1F534⟩, ⟨0x1F465⟩, ⟨0x1F41A⟩, ⟨0x1F536⟩, ⟨0x1F534⟩,
      ⟨0x1F431⟩, ⟨0x1F41A⟩, ⟨0x1F682⟩]
    Sample.couples.Reachable
    ∧ (∃ a, Sample.couples.annotate? Sample.crossedCouple = some a ∧ a.symbols = symbols
      ∧ a.type? Sample.couples Vocabulary.defaultNamespace = some Sample.crossedCouple)
    ∧ Reading.fault? (Sample.couples.annotation .integer Vocabulary.defaultNamespace .forbidden
        (.start (Cursor.identifiers symbols .nowhere)))
      = some ((Cause.typeMismatch ("too many generic arguments for " ++
          Sample.couples.typeName (.object Sample.cat.typeId))).at .nowhere) := by
  intro symbols
  have hsymbols :
      (Sample.couples.annotate? Sample.crossedCouple).map (·.symbols) = some symbols := by
    decide +kernel
  obtain ⟨a, ha, hsymbols⟩ := Option.map_eq_some_iff.mp hsymbols
  have htype := type?_of_annotate? Reachable.couples.consistent Vocabulary.defaultNamespace _ ha
  exact ⟨Reachable.couples, ⟨a, ha, hsymbols, htype⟩, by decide +kernel⟩

end Catalogue

end Pictograph
