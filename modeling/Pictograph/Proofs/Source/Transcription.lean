import Pictograph.Proofs.Source.PairedRuns
import Pictograph.Proofs.Source.Spelling
import Pictograph.Source.Cursor

/-!
# Transcriptions

A body is transcribed if every token of it is replaced by one that says the same at another place,
perhaps under another name if it refers to a variable. Which names and which places correspond is
what a transcription says. Reading a body and reading its transcription then go side by side: they
take the same number of tokens, and fail for the same cause.

Three choices of places matter. If any two places correspond, transcriptions are all ways of laying
a body out. If places correspond that are equal, the runs differ at most in the warnings that were
given before. If they have to be places of tokens besides, a run can blame nothing but tokens.

## Main definitions

* `Transcription`: the names and places that correspond.
* `Token.Alike`, `Cursor.Alike`, `Fault.Alike`: tokens, places in a body and faults that correspond.

## Main results

* `Reading.reads_next` and its companions: the readers of a body and of its transcription.
-/

namespace Pictograph

/-- The names and places of one run that correspond to those of another. -/
structure Transcription where
  /-- The warnings that were given before the other run. -/
  earlier : List Warning
  /-- The name of a variable in the other run. -/
  name : String → String
  /-- When places correspond. -/
  place : Span → Span → Prop
  /-- When lines correspond. -/
  line : Nat → Nat → Prop
  /-- Different variables keep different names. -/
  name_injective : Function.Injective name
  /-- Places that correspond are on lines that correspond. -/
  line_of_place : ∀ {p q : Span}, place p q → line p.line q.line

/-! ## Names -/

/-- A lexeme with another name for the variable that it refers to. -/
def Lexeme.rename (f : String → String) : Lexeme → Lexeme
  | reference x => .reference (f x)
  | l => l

/-- A cause with another name for the variable that it is about. -/
def Cause.rename (f : String → String) : Cause → Cause
  | redeclaration x => .redeclaration (f x)
  | unresolvedVariable x => .unresolvedVariable (f x)
  | uninitializedVariable x => .uninitializedVariable (f x)
  | uninitializedField x => .uninitializedField (f x)
  | frozenMutation x => .frozenMutation (f x)
  | c => c

/-- A remark with another name for the variable that it is about. -/
def Remark.rename (f : String → String) : Remark → Remark
  | couldBeFrozen x => .couldBeFrozen (f x)
  | r => r

/-- Causes that differ in the names of variables. A variable that stands where something else is
required is named by the description of its token. -/
inductive Cause.Alike (f : String → String) : Cause → Cause → Prop
  | renamed (c : Cause) : Alike f c (c.rename f)
  | described (expected x : String) :
      Alike f (.unexpectedToken expected (Lexeme.reference x).describe)
        (.unexpectedToken expected (Lexeme.reference (f x)).describe)

namespace Lexeme

variable (f : String → String) (l : Lexeme)

theorem category_rename : (l.rename f).category = l.category := by
  cases l <;> rfl

/-- A lexeme that is refused is refused under its other name. -/
theorem refused_rename (expected : String) :
    (Cause.unexpectedToken expected l.describe).Alike f
      (.unexpectedToken expected (l.rename f).describe) := by
  cases l with
  | reference x => exact .described expected x
  | _ => exact .renamed _

end Lexeme

theorem Lexeme.rename_id (l : Lexeme) : l.rename id = l := by
  cases l <;> rfl

theorem Cause.rename_id (c : Cause) : c.rename id = c := by
  cases c <;> rfl

theorem Remark.rename_id (r : Remark) : r.rename id = r := by
  cases r <;> rfl

/-- Without other names causes are the same. -/
theorem Cause.Alike.eq {c c' : Cause} (h : c.Alike id c') : c' = c := by
  cases h with
  | renamed => exact c.rename_id
  | described => rfl

/-! ## Tokens, cursors and faults -/

variable {τ : Transcription}

/-- A token and its transcription. -/
structure Token.Alike (τ : Transcription) (t t' : Token) : Prop where
  lexeme : t'.lexeme = t.lexeme.rename τ.name
  span : τ.place t.span t'.span

/-- A place in a body and the one in its transcription. In an empty body there is no place. -/
structure Cursor.Alike (τ : Transcription) (c c' : Cursor) : Prop where
  before : List.Forall₂ (Token.Alike τ) c.before c'.before
  after : List.Forall₂ (Token.Alike τ) c.after c'.after
  nowhere : c.before = [] → c.after = [] → τ.place .nowhere .nowhere

/-- Faults that correspond. That the recursion is too deep is not among them: it does not happen. -/
inductive Fault.Alike (τ : Transcription) : Fault → Fault → Prop
  | diagnosed {c c' : Cause} {p p' : Span} (hc : c.Alike τ.name c') (hp : τ.place p p') :
      Alike τ (.diagnosed ⟨c, p⟩) (.diagnosed ⟨c', p'⟩)
  | misfilled : Alike τ .misfilled .misfilled
  | overflowed : Alike τ .overflowed .overflowed

/-- A fault with another name for the variable that it is about. -/
theorem Fault.Alike.renamed (c : Cause) {p p' : Span} (h : τ.place p p') :
    (c.at p).Alike τ ((c.rename τ.name).at p') :=
  .diagnosed (.renamed c) h

namespace Token.Alike

variable {t t' : Token}

theorem category_eq (h : t.Alike τ t') : t'.lexeme.category = t.lexeme.category := by
  rw [h.lexeme, Lexeme.category_rename]

theorem identifier?_eq (h : t.Alike τ t') : t'.identifier? = t.identifier? := by
  rw [identifier?, identifier?, h.lexeme]
  cases t.lexeme <;> rfl

theorem reference?_eq (h : t.Alike τ t') : t'.reference? = t.reference?.map τ.name := by
  rw [reference?, reference?, h.lexeme]
  cases t.lexeme <;> rfl

theorem asksFor_eq (h : t.Alike τ t') (construct : Construct) :
    t'.asksFor construct = t.asksFor construct := by
  rw [asksFor, asksFor, construct?, construct?, h.identifier?_eq]

theorem asksFor_iff (h : t.Alike τ t') (construct : Construct) :
    t.asksFor construct ↔ t'.asksFor construct := by
  rw [h.asksFor_eq]

theorem opensArguments_eq (h : t.Alike τ t') :
    (t'.lexeme == .argumentsOpen) = (t.lexeme == .argumentsOpen) := by
  rw [h.lexeme]
  cases t.lexeme <;> rfl

end Token.Alike

namespace Cursor.Alike

variable {c c' : Cursor}

theorem remaining_eq (h : c.Alike τ c') : c'.remaining = c.remaining :=
  h.after.length_eq.symm

/-- The next tokens correspond, if there are any. -/
theorem peek (h : c.Alike τ c') : Option.Rel (Token.Alike τ) c.peek c'.peek := by
  have hafter := h.after
  rw [Cursor.peek, Cursor.peek]
  generalize c.after = l, c'.after = l' at hafter ⊢
  cases hafter with
  | nil => exact .none
  | cons ht => exact .some ht

/-- Behind tokens that correspond the places do. -/
theorem advanced {t t' : Token} {before after before' after' : List Token} (ht : t.Alike τ t')
    (hbefore : List.Forall₂ (Token.Alike τ) before before')
    (hafter : List.Forall₂ (Token.Alike τ) after after') :
    Cursor.Alike τ ⟨t :: before, after⟩ ⟨t' :: before', after'⟩ :=
  ⟨.cons ht hbefore, hafter, fun h ↦ by cases h⟩

theorem here (h : c.Alike τ c') : τ.place c.here c'.here := by
  obtain ⟨before, after⟩ := c
  obtain ⟨before', after'⟩ := c'
  obtain ⟨hbefore, hafter, hnowhere⟩ := h
  cases hafter with
  | cons ht => exact ht.span
  | nil =>
    cases hbefore with
    | cons ht => exact ht.span
    | nil => exact hnowhere rfl rfl

end Cursor.Alike

/-! ## Reading -/

/-- Two runs of a reader. -/
def Transcription.reading (τ : Transcription) : Comparison Cursor where
  fault := Fault.Alike τ
  state := Cursor.Alike τ
  size := Cursor.remaining

namespace Reading

open Comparison

variable {α β : Type} {n : Nat}

theorem agrees_reject {V : Prop → α → β → Prop} {t t' : Token} (expected : String)
    (ht : t.Alike τ t') : τ.reading.Matches n V (reject expected t) (reject expected t') := by
  rw [reject, reject, ht.lexeme]
  exact .throw (.diagnosed (Lexeme.refused_rename _ _ _) ht.span)

theorem reads_next : τ.reading.Reads n (Token.Alike τ) next next := by
  rintro ⟨before, after⟩ ⟨before', after'⟩ hc _
  have hafter : List.Forall₂ (Token.Alike τ) after after' := hc.after
  cases hafter with
  | nil => exact .error (.renamed .unexpectedEnd hc.here) hc
  | cons ht hafter =>
    exact .ok (.advanced ht hc.before hafter) (Nat.le_succ _) ⟨Nat.lt_succ_self _, ht⟩

theorem reads_expect (category : Category) :
    τ.reading.Reads n (Token.Alike τ) (expect category) (expect category) := by
  refine .bind_of_le (Nat.le_succ n) reads_next fun t t' ht ↦ ?_
  exact .ite (by rw [ht.category_eq]) (.pure ht) (agrees_reject _ ht)

theorem reads_expectConstruct (construct : Construct) (spelling : Symbol) :
    τ.reading.Reads n (Token.Alike τ) (expectConstruct construct spelling)
      (expectConstruct construct spelling) := by
  refine .bind_of_le (Nat.le_succ n) reads_next fun t t' ht ↦ ?_
  exact .ite (ht.asksFor_iff construct) (.pure ht) (agrees_reject _ ht)

theorem accept_cons (test : Token → Bool) (before after : List Token) (t : Token) :
    accept test ⟨before, t :: after⟩
      = if test t then .ok (some t) ⟨t :: before, after⟩ else .ok none ⟨before, t :: after⟩ :=
  rfl

/-- A token is accepted in both bodies or in neither. -/
theorem matches_accept {test : Token → Bool}
    (htest : ∀ {t t' : Token}, t.Alike τ t' → test t' = test t) :
    τ.reading.Matches n (fun read a b ↦ Option.Rel (Token.Alike τ) a b ∧ (a.isSome → read))
      (accept test) (accept test) := by
  rintro ⟨before, after⟩ ⟨before', after'⟩ hc _
  have hafter : List.Forall₂ (Token.Alike τ) after after' := hc.after
  cases hafter with
  | nil => exact .ok hc (Nat.le_refl _) ⟨.none, fun h ↦ by cases h⟩
  | cons ht hafter =>
    rw [accept_cons, accept_cons, htest ht]
    split
    · exact .ok (.advanced ht hc.before hafter) (Nat.le_succ _)
        ⟨.some ht, fun _ ↦ Nat.lt_succ_self _⟩
    · exact .ok hc (Nat.le_refl _) ⟨.none, fun h ↦ by cases h⟩

theorem matches_acceptConstruct (construct : Construct) :
    τ.reading.Matches n (fun read a b ↦ Option.Rel (Token.Alike τ) a b ∧ (a.isSome → read))
      (acceptConstruct construct) (acceptConstruct construct) :=
  matches_accept fun ht ↦ ht.asksFor_eq construct

theorem agrees_accept {test : Token → Bool}
    (htest : ∀ {t t' : Token}, t.Alike τ t' → test t' = test t) :
    τ.reading.Agrees n (Option.Rel (Token.Alike τ)) (accept test) (accept test) :=
  (matches_accept htest).mono (Nat.le_refl _) fun _ _ _ ⟨hrel, _⟩ ↦ hrel

theorem agrees_acceptSymbol (symbol : Symbol) :
    τ.reading.Agrees n (Option.Rel (Token.Alike τ)) (acceptSymbol symbol) (acceptSymbol symbol) :=
  agrees_accept fun ht ↦ by rw [ht.identifier?_eq]

theorem matches_acceptReference :
    τ.reading.Matches n (fun read a b ↦ b = a.map τ.name ∧ (a.isSome → read))
      acceptReference acceptReference := by
  have htest {t t' : Token} (ht : t.Alike τ t') :
      t'.reference?.isSome = t.reference?.isSome := by
    rw [ht.reference?_eq, Option.isSome_map]
  rw [acceptReference_eq, map_eq_pure_bind]
  refine (matches_accept htest).bind fun read t? t?' ⟨hrel, hread⟩ ↦
    .pure ⟨?_, fun h ↦ .inl (hread ?_)⟩
  · cases hrel with
    | none => rfl
    | some ht => exact ht.reference?_eq
  · exact Option.isSome_of_isSome_bind h

/-- Names that are read correspond: it is the same name at places that correspond. -/
def NamesAlike (τ : Transcription) (x x' : Symbol × Span) : Prop :=
  x.1 = x'.1 ∧ τ.place x.2 x'.2

/-- Names of variables that are read correspond. -/
def VariablesAlike (τ : Transcription) (x x' : String × Span) : Prop :=
  x'.1 = τ.name x.1 ∧ τ.place x.2 x'.2

theorem reads_name : τ.reading.Reads n (NamesAlike τ) name name := by
  refine .bind_of_le (Nat.le_succ n) (reads_expect _) fun t t' ht ↦ ?_
  rw [ht.identifier?_eq]
  cases t.identifier? with
  | some symbol => exact .pure ⟨rfl, ht.span⟩
  | none => exact agrees_reject _ ht

theorem reads_variableName :
    τ.reading.Reads n (VariablesAlike τ) variableName variableName := by
  refine .bind_of_le (Nat.le_succ n) (reads_expect _) fun t t' ht ↦ ?_
  rw [ht.reference?_eq]
  cases t.reference? with
  | some x => exact .pure ⟨rfl, ht.span⟩
  | none => exact agrees_reject _ ht

end Reading

end Pictograph
