import Pictograph.Proofs.Analysis.Balance
import Pictograph.Proofs.Analysis.ProgressConstructs

/-!
# Leaving out dead code

Whether dead code is wanted makes a difference to a body in one place only: behind its first dead
statement has been reported. Until then an analysis that leaves dead code out does the same as one
that compiles it. From there on it only counts marks of blocks, while the other goes on through the
constructs of the language. Both come to the same end if the blocks that the constructs go through
are the blocks that the marks delimit.

## Main definitions

* `Setting.withDeadCode`: a setting with or without dead code.
* `Curtails`: a run that leaves dead code out ends like one that compiles it, with less code.

## Main results

* `Analysis.expression_withDeadCode`: expressions are analysed in the same way.
* `Analysis.skipBody_of_balanced`: what is left out ends behind blocks that are closed.
* `Analysis.body_curtailed`: a body that is accepted with dead code is accepted without it.
-/

namespace Pictograph

/-- The setting with or without dead code. -/
def Setting.withDeadCode (Γ : Setting) (compilesDeadCode : Bool) : Setting :=
  { Γ with options := Γ.options.withDeadCode compilesDeadCode }

/-- The analysis of expressions in settings with or without dead code. -/
def Recursion.withDeadCode (rec : Recursion) (compilesDeadCode : Bool) : Recursion :=
  fun Γ ↦ rec (Γ.withDeadCode compilesDeadCode)

namespace Analysis

variable {Γ : Setting} {rec : Recursion} {b : Bool} {s s' : State} {token : Token} {span : Span}
  {n : Nat}

/-! ## Expressions -/

theorem operandsFitting_withDeadCode :
    operandsFitting (Γ.withDeadCode b) rec = operandsFitting Γ (rec.withDeadCode b) := by
  funext expected
  induction expected with
  | nil => rfl
  | cons t expected ih =>
    rw [operandsFitting, operandsFitting, ih]
    rfl

theorem arguments_withDeadCode :
    arguments (Γ.withDeadCode b) rec = arguments Γ (rec.withDeadCode b) := by
  funext expected
  rw [arguments, arguments, operandsFitting_withDeadCode]

theorem callMember_withDeadCode :
    callMember (Γ.withDeadCode b) rec = callMember Γ (rec.withDeadCode b) := by
  funext m receiver span
  rw [callMember, callMember, arguments_withDeadCode]
  rfl

/-- No construct asks whether dead code is wanted. In closures it always is. -/
theorem construct_withDeadCode (hrec : rec.withDeadCode b = rec) {symbol : Symbol}
    {hint : Option Ty} :
    construct (Γ.withDeadCode b) rec token symbol hint = construct Γ rec token symbol hint := by
  by_cases hopen : Construct.ofSymbol symbol = .blockOpen
  · rw [construct, construct, hopen]
    rfl
  conv_rhs => rw [← hrec]
  unfold construct
  generalize Construct.ofSymbol symbol = asked at hopen
  cases asked with
  | method method =>
    dsimp only [call]
    rw [callMember_withDeadCode]
    rfl
  | optionalChain =>
    dsimp only [optionalChain]
    rw [callMember_withDeadCode]
    rfl
  | classMethod =>
    dsimp only [callClassMethod]
    rw [callMember_withDeadCode]
    rfl
  | superMethod =>
    dsimp only [callSuperMethod]
    rw [callMember_withDeadCode]
    rfl
  | instantiate =>
    dsimp only [instantiate]
    rw [arguments_withDeadCode]
    rfl
  | superInitializer =>
    dsimp only [superInitializer]
    rw [arguments_withDeadCode]
    rfl
  | invoke =>
    dsimp only [invoke]
    rw [arguments_withDeadCode]
    rfl
  | blockOpen => exact absurd rfl hopen
  | _ => rfl

/-- **Expressions are analysed in the same way**, whether dead code is wanted or not. -/
theorem expression_withDeadCode (n : Nat) (b : Bool) :
    (expression n).withDeadCode b = expression n := by
  induction n with
  | zero => rfl
  | succ n ih =>
    funext Γ token hint
    change expressionStep (expression n) (Γ.withDeadCode b) token hint
      = expressionStep (expression n) Γ token hint
    unfold expressionStep
    simp only [construct_withDeadCode ih]

theorem statement_withDeadCode (b : Bool) :
    statement (Γ.withDeadCode b) (expression n) token = statement Γ (expression n) token := by
  conv_rhs => rw [← expression_withDeadCode n b]
  rfl

/-! ## What is left out -/

theorem next_of_after {rest : List Token} (h : s.cursor.after = token :: rest) :
    ∃ cursor : Cursor, cursor.after = rest ∧ next s = .ok token { s with cursor } := by
  refine ⟨⟨token :: s.cursor.before, rest⟩, rfl, ?_⟩
  have hadvance : s.cursor.advance = some (token, ⟨token :: s.cursor.before, rest⟩) := by
    rw [Cursor.advance, h]
  rw [next, reading, Reading.next_of_advance hadvance]

/-- A token that is no mark of a block leaves the number of open blocks as it is. -/
theorem skipStep_plain {depth : Nat} (h : next s = .ok token s') (ht : token.isPlain) :
    skipStep depth s = .ok (.inl depth) s' := by
  obtain ⟨ho, hc⟩ := Token.asksFor_of_isPlain ht
  rw [skipStep, bind_of_ok h, ho, hc]
  rfl

theorem skipStep_open {depth : Nat} (h : next s = .ok token s') (ht : token.asksFor .blockOpen) :
    skipStep depth s = .ok (.inl (depth + 1)) s' := by
  rw [skipStep, bind_of_ok h, ht]
  rfl

theorem skipStep_close {depth : Nat} (h : next s = .ok token s')
    (ht : token.asksFor .blockClose) :
    skipStep depth s = .ok (if depth = 0 then .inr token.span else .inl (depth - 1)) s' := by
  rw [skipStep, bind_of_ok h, Token.asksFor_blockOpen_of_blockClose ht, ht]
  rfl

/-- Blocks that are closed leave the number of open blocks as it is. -/
theorem repeating_skipStep {ts : List Token} (h : Balanced ts) (fuel depth : Nat) (s : State)
    {rest : List Token} (hs : s.cursor.after = ts ++ rest) :
    ∃ cursor : Cursor, cursor.after = rest
      ∧ repeating skipStep (fuel + ts.length) depth s
        = repeating skipStep fuel depth { s with cursor } := by
  induction h generalizing fuel depth s rest with
  | nil => exact ⟨_, hs, rfl⟩
  | plain ht =>
    obtain ⟨cursor, hcursor, hnext⟩ := next_of_after hs
    exact ⟨cursor, hcursor, bind_of_ok (skipStep_plain hnext ht)⟩
  | @append ts ts' _ _ ih ih' =>
    rw [List.append_assoc] at hs
    obtain ⟨c₁, hc₁, h₁⟩ := ih (fuel + ts'.length) depth s hs
    obtain ⟨c₂, hc₂, h₂⟩ := ih' fuel depth { s with cursor := c₁ } hc₁
    refine ⟨c₂, hc₂, ?_⟩
    rw [List.length_append, Nat.add_comm ts.length, ← Nat.add_assoc, h₁, h₂]
  | @block opening closing ts ho hc _ ih =>
    rw [List.cons_append, List.cons_append, List.append_assoc] at hs
    obtain ⟨c₁, hc₁, hopen⟩ := next_of_after hs
    obtain ⟨c₂, hc₂, h₂⟩ := ih (fuel + 1) (depth + 1) { s with cursor := c₁ } hc₁
    obtain ⟨c₃, hc₃, hclose⟩ := next_of_after (s := { s with cursor := c₂ }) hc₂
    refine ⟨c₃, hc₃, ?_⟩
    have hlength : fuel + (opening :: ts ++ [closing]).length = fuel + 1 + ts.length + 1 := by
      rw [List.length_append, List.length_cons, List.length_singleton]
      omega
    calc repeating skipStep (fuel + (opening :: ts ++ [closing]).length) depth s
        = repeating skipStep (fuel + 1 + ts.length) (depth + 1) { s with cursor := c₁ } := by
          rw [hlength]
          exact bind_of_ok (skipStep_open hopen ho)
      _ = repeating skipStep (fuel + 1) (depth + 1) { s with cursor := c₂ } := h₂
      _ = repeating skipStep fuel depth { s with cursor := c₃ } :=
          bind_of_ok (skipStep_close hclose hc)

/-- **What is left out of a body ends at its mark**, if the blocks in front of it are closed. -/
theorem skipBody_of_balanced {ts rest : List Token} {closing : Token} (hts : Balanced ts)
    (hc : closing.asksFor .blockClose) (h : s.cursor.after = ts ++ closing :: rest) :
    ∃ cursor : Cursor, cursor.after = rest
      ∧ skipBody s = .ok closing.span { s with cursor } := by
  obtain ⟨c₁, hc₁, h₁⟩ := repeating_skipStep hts (rest.length + 1 + 1) 0 s h
  obtain ⟨c₂, hc₂, hclose⟩ := next_of_after (s := { s with cursor := c₁ }) hc₁
  refine ⟨c₂, hc₂, ?_⟩
  have hremaining : s.cursor.remaining + 1 = rest.length + 1 + 1 + ts.length := by
    rw [Cursor.remaining, h, List.length_append, List.length_cons]
    omega
  calc skipBody s
      = repeating skipStep (s.cursor.remaining + 1) 0 s := rfl
    _ = repeating skipStep (rest.length + 1 + 1) 0 { s with cursor := c₁ } := by
        rw [hremaining, h₁]
    _ = .ok closing.span { s with cursor := c₂ } := bind_of_ok (skipStep_close hclose hc)

end Analysis

/-! ## Where both runs end -/

/-- A run that leaves dead code out comes to `r` where one that compiles it comes to `q`, with a
part of its code and of its strings. Both start from `p`. -/
structure Curtails (p q r : Progress) : Prop where
  after : r.after = q.after
  holes : r.assembler.holes = []
  cells : r.assembler.cells <+: q.assembler.cells
  earlier : p.strings.strings.toList <+: r.strings.strings.toList
  strings : r.strings.strings.toList <+: q.strings.strings.toList

/-- Both runs may start earlier. -/
theorem Curtails.behind {p p' q r : Progress} {cat : Catalogue} (h : Curtails p q r)
    (hlead : p'.Leads cat p) : Curtails p' q r :=
  { h with earlier := hlead.strings.trans h.earlier }

namespace Analysis

variable {Γ : Setting} {rec : Recursion} {s s' : State} {token : Token} {span : Span} {u : Unit}
  {n : Nat}

/-- A statement leaves no word reserved, and in an initializer the flag about returns down. -/
theorem statement_ok (h : statement Γ (expression n) token s = .ok u s') :
    s'.assembler.holes = s.assembler.holes
      ∧ (Γ.initializer?.isSome → s.frame.hasReturned = false → s'.frame.hasReturned = false) := by
  have hemitting := emitting_of_ok (m := fun r ↦ statement Γ r token) h
  obtain ⟨o, ho, -⟩ := writes_statement hemitting
  exact ⟨ho.holes, fun hΓ hs ↦ ho.emits.unreturned hΓ hs⟩

/-- Behind the first dead statement, leaving out comes to the same end as compiling. -/
theorem curtails_skipBody {fuel : Nat} (hopen : ¬ Γ.catalogue.Finds Construct.blockOpen.spelling)
    (hclose : ¬ Γ.catalogue.Finds Construct.blockClose.spelling) (hs : s.assembler.holes = [])
    (h : repeating (bodyStep (Γ.withDeadCode true) (expression n)) fuel true s = .ok span s') :
    ∃ span' s'', skipBody s = .ok span' s'' ∧ Curtails s.progress s'.progress s''.progress
      ∧ s''.frame = s.frame := by
  obtain ⟨closing, hc, hlead⟩ := closes_bodyStep (proceeds_expression n) rfl fuel true span s' h
  obtain ⟨ts, hafter, hts⟩ := hlead.balanced hopen hclose
  obtain ⟨cursor, hcursor, hskip⟩ := skipBody_of_balanced hts hc hafter
  exact ⟨closing.span, { s with cursor }, hskip,
    ⟨hcursor, hs, hlead.cells hs, List.prefix_rfl, hlead.strings⟩, rfl⟩

/-- The first dead statement is reported, and leaving out what follows comes to the same end. -/
theorem curtails_dead {fuel : Nat} {dead : Token} {s₁ : State}
    (hopen : ¬ Γ.catalogue.Finds Construct.blockOpen.spelling)
    (hclose : ¬ Γ.catalogue.Finds Construct.blockClose.spelling) (hs : s.assembler.holes = [])
    (hwarn : warn .deadCode dead.span s = .ok u s₁)
    (h : repeating (bodyStep (Γ.withDeadCode true) (expression n)) fuel true s₁ = .ok span s') :
    ∃ span' s'', (do
        warn .deadCode dead.span
        return .inr (← skipBody) : Analysis (Bool ⊕ Span)) s = .ok (.inr span') s''
      ∧ Curtails s.progress s'.progress s''.progress ∧ s''.frame = s.frame := by
  have hlead : s.progress.Leads Γ.catalogue s₁.progress := proceeds_warn _ _ hwarn
  have hsame : s₁.assembler = s.assembler ∧ s₁.frame = s.frame := by
    cases hwarn
    exact ⟨rfl, rfl⟩
  obtain ⟨span', s'', hskip, hcurtails, hframe⟩ :=
    curtails_skipBody hopen hclose ((congrArg (·.holes) hsame.1).trans hs) h
  refine ⟨span', s'', ?_, hcurtails.behind hlead, hframe.trans hsame.2⟩
  exact (bind_of_ok hwarn).trans (bind_of_ok hskip)

/-- Up to the end of a statement that is not dead, a step without dead code is one with it. -/
theorem bodyStep_withDeadCode_false {s₁ s₂ s₃ : State} {dead? : Option Token}
    (hnext : next s = .ok token s₁) (hclose : ¬ token.asksFor .blockClose)
    (hstatement : statement Γ (expression n) token s₁ = .ok u s₂)
    (hdead : deadStatement? s₂ = .ok dead? s₃) :
    bodyStep (Γ.withDeadCode false) (expression n) false s
      = (dead?.elim (return .inl false) fun dead ↦ do
          warn .deadCode dead.span
          return .inr (← skipBody) : Analysis (Bool ⊕ Span)) s₃ := by
  rw [bodyStep, bind_of_ok hnext, if_neg hclose, statement_withDeadCode, bind_of_ok hstatement,
    if_neg Bool.false_ne_true, bind_of_ok hdead]
  cases dead? <;> rfl

/-- The rest of a body with dead code comes to an end also without it: to the same one, or else
behind a return, which an initializer does not have. -/
theorem curtails_bodyStep {fuel : Nat} (hopen : ¬ Γ.catalogue.Finds Construct.blockOpen.spelling)
    (hclose : ¬ Γ.catalogue.Finds Construct.blockClose.spelling) (hs : s.assembler.holes = [])
    (hflag : Γ.initializer?.isSome → s.frame.hasReturned = false)
    (h : repeating (bodyStep (Γ.withDeadCode true) (expression n)) fuel false s = .ok span s') :
    ∃ span' s'', repeating (bodyStep (Γ.withDeadCode false) (expression n)) fuel false s
        = .ok span' s''
      ∧ Curtails s.progress s'.progress s''.progress
      ∧ (span' = span ∧ s'' = s' ∨ Γ.initializer? = none ∧ s''.frame.hasReturned) := by
  induction fuel generalizing s with
  | zero => cases h
  | succ fuel ih =>
    obtain ⟨x, s₁, hx, h⟩ := bind_ok h
    obtain ⟨t, _, ht, hx⟩ := bind_ok hx
    have hread := progress_of_next ht
    obtain ⟨cursor, -, rfl⟩ := reading_ok ht
    split at hx
    · next htclose =>
      cases hx
      cases h
      have hstep : bodyStep (Γ.withDeadCode false) (expression n) false s
          = .ok (.inr t.span) { s with cursor } := by
        rw [bodyStep, bind_of_ok ht, if_pos htclose]
        rfl
      exact ⟨_, _, bind_of_ok hstep, ⟨rfl, hs, List.prefix_rfl, List.prefix_rfl, List.prefix_rfl⟩,
        .inl ⟨rfl, rfl⟩⟩
    next htclose =>
    obtain ⟨u, s₂, hstatement, hx⟩ := bind_ok hx
    obtain ⟨dead?, s₃, hdead, hx⟩ := bind_ok hx
    rw [statement_withDeadCode] at hstatement
    have hstep := bodyStep_withDeadCode_false ht htclose hstatement hdead
    have hlead : s.progress.Leads Γ.catalogue s₂.progress := by
      rw [hread]
      exact proceeds_statement (proceeds_expression n) u s₂ hstatement
    obtain ⟨hholes, hreturned⟩ := statement_ok hstatement
    obtain ⟨rfl, hwhich⟩ := deadStatement?_ok hdead
    cases dead? with
    | none =>
      cases hx
      obtain ⟨span', s'', hrest, hcurtails, hend⟩ :=
        ih (hholes.trans hs) (fun hΓ ↦ hreturned hΓ (hflag hΓ)) h
      exact ⟨span', s'', (bind_of_ok hstep).trans hrest, hcurtails.behind hlead, hend⟩
    | some dead =>
      obtain ⟨_, s₃, hwarn, hx⟩ := bind_ok hx
      cases hx
      obtain ⟨span', s'', hskip, hcurtails, hframe⟩ :=
        curtails_dead hopen hclose (hholes.trans hs) hwarn h
      have hup : s₂.frame.hasReturned := by
        by_contra hdown
        rw [if_neg hdown] at hwhich
        cases hwhich
      refine ⟨span', s'', bind_of_ok (hstep.trans hskip), hcurtails.behind hlead, .inr ⟨?_, ?_⟩⟩
      · by_contra hΓ
        have hinitializer := Option.isSome_iff_ne_none.mpr hΓ
        rw [hreturned hinitializer (hflag hinitializer)] at hup
        cases hup
      · rw [hframe]
        exact hup

/-! ## Bodies -/

/-- **A body that is accepted with dead code is accepted without it**, if no mark of a block is a
name. -/
theorem body_curtailed {arguments : List Argument} {captured : List Variable} {outerSlots : Nat}
    {summary : Summary} (hopen : ¬ Γ.catalogue.Finds Construct.blockOpen.spelling)
    (hclose : ¬ Γ.catalogue.Finds Construct.blockClose.spelling) (hs : s.assembler.holes = [])
    (hflag : s.frame.hasReturned = false)
    (h : body (Γ.withDeadCode true) (expression n) arguments captured outerSlots s
      = .ok summary s') :
    ∃ summary' s'', body (Γ.withDeadCode false) (expression n) arguments captured outerSlots s
        = .ok summary' s''
      ∧ Curtails s.progress s'.progress s''.progress := by
  obtain ⟨first, s₁, h₁, h⟩ := bind_ok h
  cases h₁
  obtain ⟨_, s₂, h₂, h⟩ := bind_ok h
  obtain ⟨first, s₃, h₃, h⟩ := bind_ok h
  obtain ⟨ending, s₄, h₄, h₅⟩ := bind_ok h
  obtain ⟨vs, hvs, -⟩ := declares_arguments h₂
  obtain ⟨vs', hvs', -⟩ := declares_takeOver h₃
  have hdecl := hvs.trans hvs'
  have hlead : s.progress.Leads Γ.catalogue s₃.progress :=
    (ProceedsFrom.forM (fun _ _ ↦ proceeds_declareArgument) _ _ h₂).trans (proceeds_takeOver _ _ h₃)
  have hdown : s₃.frame.hasReturned = false :=
    (congrArg Context.hasReturned hdecl.context).trans hflag
  obtain ⟨ending', s₅, h₄', hcurtails, hend⟩ :=
    curtails_bodyStep hopen hclose (hdecl.holes.trans hs) (fun _ ↦ hdown) h₄
  have hleave : ∃ summary' s'', leaveBody (Γ.withDeadCode false) first outerSlots ending' s₅
      = .ok summary' s'' := by
    rcases hend with ⟨rfl, rfl⟩ | ⟨hΓ, hreturned⟩
    · exact ⟨summary, s', h₅⟩
    · obtain ⟨session, hleave⟩ := exists_leaveBody hΓ first outerSlots ending' s₅
      rw [hreturned, Bool.or_true] at hleave
      exact ⟨_, _, hleave⟩
  obtain ⟨summary', s'', h₅'⟩ := hleave
  refine ⟨summary', s'', ?_, ?_⟩
  -- up to the statements both settings ask for the same
  · have hhere : here s = .ok s.cursor.here s := rfl
    have h₂' : arguments.forM (declareArgument (Γ.withDeadCode false) s.cursor.here) s
        = .ok () s₂ := h₂
    have h₃' : takeOver (Γ.withDeadCode false) s.cursor.here captured outerSlots s₂
        = .ok first s₃ := h₃
    rw [body, bind_of_ok hhere, bind_of_ok h₂', bind_of_ok h₃', bodyStatements_eq]
    exact (bind_of_ok h₄').trans h₅'
  · rw [rests_leaveBody _ _ h₅, rests_leaveBody _ _ h₅']
    exact hcurtails.behind hlead

end Analysis

end Pictograph
