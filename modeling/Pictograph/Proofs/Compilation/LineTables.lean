import Pictograph.Proofs.Analysis.Makeup
import Pictograph.Proofs.Compilation.Emitted

/-!
# Lines of the source

Each word of the code has a line, for those who are to find out where a program was when it failed.
It is the line of the token that the last expression began with, also for words that are written
behind the expressions inside it, that are reserved and filled later, or that stand for a closure.

The lines of the words do not go back as long as those of the tokens do not. What carries this
through the analysis is a single list: the lines of the code, then the current line, then the lines
of the tokens to come. In the beginning this is the list of the tokens alone, as nothing is written.
A word that is written doubles the current line, a token that is read takes a line away, and an
expression moves the current line on to its first token. What is left of a list in order is in
order, and so is a list in which an entry is doubled.

There is no current line in front of the first statement of a body: what the assembler starts with
need not be the line of a token. This is why nothing may be written there, nor behind the last
statement.

## Main definitions

* `Lined`: lines in order, all of them from the source.
* `State.InLine`: the code and the tokens to come are in order.
* `State.OnLine`: so they are with the current line between them.

## Main results

* `onLine_expression`: an expression leads from its first token to a state on a line.
* `inLine_body`: the code of a body is in order, given that the tokens are.
* `compile_lines_sorted`: the line table of an accepted body follows the source.
-/

namespace Pictograph

open Analysis

variable {α β σ : Type} {source : List Nat}

/-! ## Lines in order -/

/-- Lines that do not go back, each of them a line of the source. -/
structure Lined (source lines : List Nat) : Prop where
  sorted : lines.Pairwise (· ≤ ·)
  mem : ∀ l ∈ lines, l ∈ source

namespace Lined

variable {lines lines' : List Nat} {l : Nat}

theorem sublist (h : Lined source lines) (hs : lines'.Sublist lines) : Lined source lines' :=
  ⟨h.sorted.sublist hs, fun l hl ↦ h.mem l (hs.subset hl)⟩

/-- A line may be repeated. -/
theorem twice (h : Lined source (lines ++ l :: lines')) :
    Lined source (lines ++ l :: l :: lines') := by
  obtain ⟨hbefore, hafter, hcross⟩ := List.pairwise_append.mp h.sorted
  have hmem {k : Nat} (hk : k ∈ l :: l :: lines') : k ∈ l :: lines' :=
    (List.mem_cons.mp hk).elim (fun heq ↦ heq ▸ List.mem_cons_self) id
  constructor
  · refine List.pairwise_append.mpr ⟨hbefore, List.pairwise_cons.mpr ⟨fun k hk ↦ ?_, hafter⟩,
      fun k hk k' hk' ↦ hcross k hk k' (hmem hk')⟩
    exact (List.mem_cons.mp hk).elim (fun heq ↦ heq ▸ Nat.le_refl _)
      ((List.pairwise_cons.mp hafter).1 k)
  · intro k hk
    exact h.mem k ((List.mem_append.mp hk).elim (List.mem_append_left _)
      fun hk ↦ List.mem_append_right _ (hmem hk))

theorem replicate (h : Lined source (lines ++ l :: lines')) (n : Nat) :
    Lined source (lines ++ List.replicate n l ++ l :: lines') := by
  induction n generalizing lines with
  | zero => simpa using h
  | succ n ih =>
    have hmore : Lined source (lines ++ [l] ++ l :: lines') := by simpa using h.twice
    simpa [List.replicate_succ] using ih hmore

end Lined

/-! ## States -/

/-- The lines of the tokens to come. -/
def Cursor.lines (c : Cursor) : List Nat := c.after.map (·.span.line)

theorem Cursor.lines_sublist {c d : Cursor} (h : d.after <:+ c.after) : d.lines.Sublist c.lines :=
  h.sublist.map _

/-- The code and the tokens to come are in order. -/
def State.InLine (source : List Nat) (s : State) : Prop :=
  Lined source (s.assembler.chunk.lines ++ s.cursor.lines)

/-- The code, the current line and the tokens to come are in order. To the tokens belongs the one
that was read and that no expression was analysed from. -/
def State.OnLine (source : List Nat) (token? : Option Token) (s : State) : Prop :=
  Lined source (s.assembler.chunk.lines ++
    s.assembler.line :: ((token?.map (·.span.line)).toList ++ s.cursor.lines))

namespace State

variable {s t : State} {token : Token} {token? : Option Token}

theorem OnLine.inLine (h : s.OnLine source none) : s.InLine source :=
  h.sublist ((List.sublist_cons_self _ _).append_left _)

/-- Where a token was read, the current line may be moved on to it. -/
theorem OnLine.atToken (h : s.OnLine source (some token)) :
    Lined source (s.assembler.chunk.lines ++ token.span.line :: s.cursor.lines) :=
  h.sublist ((List.sublist_cons_self _ _).append_left _)

theorem OnLine.drop (h : s.OnLine source (some token)) : s.OnLine source none :=
  h.sublist (((List.sublist_cons_self _ _).cons_cons _).append_left _)

/-- Words were added for the current line. -/
theorem OnLine.lengthens (h : s.OnLine source token?) (ha : s.assembler.Lengthens t.assembler)
    (hc : t.cursor = s.cursor) : t.OnLine source token? := by
  obtain ⟨n, hn⟩ := ha.lines
  unfold OnLine
  rw [hn, ha.line, hc]
  exact Lined.replicate h n

/-- Tokens were read. -/
theorem OnLine.suffix (h : s.OnLine source none) (ha : t.assembler = s.assembler)
    (hc : t.cursor.after <:+ s.cursor.after) : t.OnLine source none := by
  unfold OnLine
  rw [ha]
  exact h.sublist (((Cursor.lines_sublist hc).cons_cons _).append_left _)

end State

namespace Analysis

variable {s t : State} {token : Token}

theorem lines_of_next (h : next s = .ok token t) :
    t.assembler = s.assembler ∧ s.cursor.lines = token.span.line :: t.cursor.lines := by
  obtain ⟨c, hc, rfl⟩ := reading_ok h
  refine ⟨rfl, ?_⟩
  rw [Cursor.lines, (Cursor.advance_eq_some (Reading.next_ok hc)).1]
  rfl

end Analysis

/-- What does not write at all does not write for the current line. -/
theorem Blind.lines_eq {m : Analysis α} (h : Blind m) {s t : State} {a : α} (hm : m s = .ok a t)
    (hlisting : t.listing = s.listing) : t.assembler.chunk.lines = s.assembler.chunk.lines := by
  obtain ⟨n, hn⟩ := (h.lengthens hm).lines
  have hsize (s : State) : s.assembler.chunk.lines.length = s.listing.length := by
    rw [Chunk.lines, State.listing, Chunk.listing, List.length_map, List.length_map]
  have hlength := congrArg List.length hn
  rw [hsize, hlisting, List.length_append, List.length_replicate, hsize] at hlength
  obtain rfl : n = 0 := by omega
  rw [hn, List.replicate_zero, List.append_nil]

/-! ## All analyses -/

/-- An analysis leads from a line to a line, given the token that no expression was analysed from
yet. -/
def StaysOnLine (source : List Nat) (token? : Option Token) (m : Analysis α) : Prop :=
  ∀ ⦃s t a⦄, m s = .ok a t → s.OnLine source token? → t.OnLine source none

/-- Expressions move on to the lines of their first tokens. -/
def Recursion.TakesLines (source : List Nat) (rec : Recursion) : Prop :=
  ∀ Γ token hint s t a, rec Γ token hint s = .ok a t →
    Lined source (s.assembler.chunk.lines ++ token.span.line :: s.cursor.lines) →
    t.OnLine source none

/-- What is made of such expressions leads from a line to a line. -/
theorem Made.staysOnLine {rec : Recursion} (hrec : rec.TakesLines source) {token? : Option Token}
    {m : Analysis α} (h : Made rec token? m) : StaysOnLine source token? m := by
  induction h with
  | blind h => exact fun s t a hm hs ↦ hs.lengthens (h.lengthens hm) (h.cursor_eq hm)
  | reading h =>
    intro s t a hm hs
    obtain ⟨c, hc, rfl⟩ := reading_ok hm
    exact hs.suffix rfl (h.suffix hc)
  | look _ _ ih => exact fun s t a hm hs ↦ ih s hm hs
  | here =>
    intro s t a hm hs
    cases hm
    exact hs
  | deadStatement? =>
    intro s t a hm hs
    obtain ⟨rfl, -⟩ := deadStatement?_ok hm
    exact hs
  | bind _ _ ih ih' =>
    intro s t b hb hs
    obtain ⟨a, s₁, ha, hb⟩ := bind_ok hb
    exact ih' a hb (ih ha hs)
  | repeatUntil _ v ih => exact fun s t b hm hs ↦ keeps_of_repeating (fun h ↦ ih _ h) hm hs
  | next _ ih =>
    intro s t a hm hs
    obtain ⟨token, s₁, htoken, hm⟩ := bind_ok hm
    obtain ⟨hassembler, hlines⟩ := lines_of_next htoken
    refine ih token hm ?_
    unfold State.OnLine at hs ⊢
    rw [hassembler]
    rwa [hlines] at hs
  | call => exact fun s t a hm hs ↦ hrec _ _ _ s t a hm hs.atToken
  | drop _ ih => exact fun s t a hm hs ↦ ih hm hs.drop
  | before h _ ih =>
    intro s t b hb hs
    obtain ⟨a, s₁, ha, hb⟩ := bind_ok hb
    exact ih a hb (hs.lengthens (h.lengthens ha) (h.cursor_eq ha))

/-- **An expression leads from its first token to a state on a line.** -/
theorem takesLines_expression (n : Nat) : (expression n).TakesLines source := by
  induction n with
  | zero => exact fun _ _ _ _ _ _ h ↦ nomatch h
  | succ n ih =>
    intro Γ token hint s t a h hs
    obtain ⟨m, hm, heq⟩ := @exists_made (expression n) Γ token hint
    rw [expression, heq] at h
    obtain ⟨u, s₁, hline, h⟩ := bind_ok h
    cases hline
    exact hm.staysOnLine ih h hs

/-! ## Bodies -/

section

variable {Γ : Setting} {n : Nat} {s t : State}

/-- In front of a statement there need not be a current line. -/
theorem onLine_statement {token : Token} {u : Unit}
    (h : statement Γ (expression n) token s = .ok u t)
    (hs : Lined source (s.assembler.chunk.lines ++ token.span.line :: s.cursor.lines)) :
    t.OnLine source none := by
  obtain ⟨_, s₁, hmodify, h⟩ := bind_ok h
  cases hmodify
  obtain ⟨_, s₂, hexpression, h⟩ := bind_ok h
  have hs₂ := takesLines_expression n _ _ _ _ _ _ hexpression hs
  have hrest : Made (expression n) none (do
      if !(← frame).hasEffect then
        warn .noEffect token.span) := .step .frame fun _ ↦ .ite (.blind (.warn _ _)) (.pure _)
  exact hrest.staysOnLine (takesLines_expression n) h hs₂

theorem inLine_bodyStep {reported : Bool} {answer : Bool ⊕ Span}
    (h : bodyStep Γ (expression n) reported s = .ok answer t) (hs : s.InLine source) :
    t.InLine source := by
  rw [bodyStep_eq] at h
  obtain ⟨token, s₁, htoken, h⟩ := bind_ok h
  obtain ⟨hassembler, hlines⟩ := lines_of_next htoken
  rw [State.InLine, ← hassembler, hlines] at hs
  split at h
  · obtain ⟨-, rfl⟩ := pure_ok h
    exact hs.sublist ((List.sublist_cons_self _ _).append_left _)
  · obtain ⟨_, s₂, hstatement, h⟩ := bind_ok h
    have hs₂ := onLine_statement hstatement hs
    exact ((made_behindStatement reported).staysOnLine (takesLines_expression n) h hs₂).inLine

theorem State.InLine.of_eq (h : s.InLine source)
    (hlines : t.assembler.chunk.lines = s.assembler.chunk.lines) (hc : t.cursor = s.cursor) :
    t.InLine source := by
  rw [State.InLine, hlines, hc]
  exact h

/-- **The code of a body is in order, given that the tokens are.** -/
theorem inLine_body {arguments : List Argument} {captured : List Variable} {outerSlots : Nat}
    {summary : Summary} (h : body Γ (expression n) arguments captured outerSlots s = .ok summary t)
    (hs : s.InLine source) : t.InLine source := by
  obtain ⟨span, s₁, hhere, h⟩ := bind_ok h
  cases hhere
  obtain ⟨_, s₂, hdeclare, h⟩ := bind_ok h
  obtain ⟨first, s₃, htake, h⟩ := bind_ok h
  obtain ⟨ending, s₄, hstatements, h⟩ := bind_ok h
  have harguments : Blind (arguments.forM (declareArgument Γ s.cursor.here)) :=
    .forM fun _ ↦ .declareArgument _
  have htaking : Blind (takeOver Γ s.cursor.here captured outerSlots) := .takeOver _ _
  have hleaving : Blind (leaveBody Γ first outerSlots ending) := .leaveBody _ _
  obtain ⟨_, hdeclares, -⟩ := declares_arguments hdeclare
  obtain ⟨_, hdeclares', -⟩ := declares_takeOver htake
  have hs₂ := hs.of_eq (harguments.lines_eq hdeclare hdeclares.listing)
    (harguments.cursor_eq hdeclare)
  have hs₃ := hs₂.of_eq (htaking.lines_eq htake hdeclares'.listing) (htaking.cursor_eq htake)
  have hs₄ := keeps_of_repeating inLine_bodyStep hstatements hs₃
  have hkeeps := (leaveBody_ok h).1.listing
  rw [List.append_nil] at hkeeps
  exact hs₄.of_eq (hleaving.lines_eq h hkeeps) (hleaving.cursor_eq h)

end

/-! ## Procedures -/

/-- **The line table of an accepted body follows the source.** If the lines of the tokens do not go
back, those of the words do not, and each of them is the line of a token. -/
theorem compile_lines_sorted {cat : Catalogue} {options : Options} {session session' : Session}
    {c : Class} {m : Member} {tokens : List Token} {record : Record}
    (h : compile cat options session c m tokens = (.ok record, session'))
    (htokens : (tokens.map (·.span.line)).Pairwise (· ≤ ·)) :
    record.code.lines.Pairwise (· ≤ ·)
      ∧ ∀ l ∈ record.code.lines, ∃ token ∈ tokens, token.span.line = l := by
  by_cases hm : m.isNative
  · rw [compile, if_pos hm] at h
    cases h
    exact ⟨.nil, fun l hl ↦ absurd hl List.not_mem_nil⟩
  · obtain ⟨fields, summary, s, -, hbody, hfinish, -⟩ :=
      (compile_ok_iff (eq_false_of_ne_true hm)).mp h
    obtain ⟨hafter, -, rfl⟩ := finishRecord_ok_iff.mp hfinish
    have hstart : (State.start fields session tokens).InLine (tokens.map (·.span.line)) :=
      ⟨htokens, fun _ hl ↦ hl⟩
    have hlines := inLine_body hbody hstart
    rw [State.InLine, Cursor.lines, hafter, List.map_nil, List.append_nil] at hlines
    exact ⟨hlines.sorted, fun l hl ↦ List.mem_map.mp (hlines.mem l hl)⟩

namespace Sample

/-- A token on a line. -/
def onLine (line : Nat) (token : Token) : Token := { token with span := ⟨line, 1, 1⟩ }

/-- A branch and a statement behind it. There is `🍊 👍` on the second line, `🍇` on the third, `5`
on the fifth, `🍉 👎` on the sixth and `🍉` on the eighth. -/
def branchOnLines : List Token :=
  [onLine 2 (ask .ifBranch), onLine 2 (word (.boolean true)), onLine 3 (ask .blockOpen),
    onLine 5 (word (.integer 5)), onLine 6 (ask .blockClose), onLine 6 (word (.boolean false)),
    onLine 8 (ask .blockClose)]

end Sample

/-- The words of a branch are for the line where it begins, also those that are reserved behind its
condition. No word is for the line that the assembler starts with. -/
theorem compile_lines_sorted_sample :
    ∃ record session', compile Sample.catalogue {} .start Sample.parentClass Sample.method
        Sample.branchOnLines = (.ok record, session')
      ∧ (Sample.branchOnLines.map (·.span.line)).Pairwise (· ≤ ·)
      ∧ record.code.lines = [2, 2, 2, 2, 5, 5, 6]
      ∧ record.code.lines.Pairwise (· ≤ ·)
      ∧ ∀ l ∈ record.code.lines, ∃ token ∈ Sample.branchOnLines, token.span.line = l := by
  have hlines : (compile Sample.catalogue {} .start Sample.parentClass Sample.method
      Sample.branchOnLines).1.toOption.bind (fun record ↦ some record.code.lines)
        = some [2, 2, 2, 2, 5, 5, 6] := by
    decide +kernel
  obtain ⟨record, session', h, hcode⟩ := exists_record_of_bind hlines
  have htokens : (Sample.branchOnLines.map (·.span.line)).Pairwise (· ≤ ·) := by decide
  exact ⟨record, session', h, htokens, Option.some.inj hcode, compile_lines_sorted h htokens⟩

end Pictograph
