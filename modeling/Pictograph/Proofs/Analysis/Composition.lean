import Pictograph.Analysis.Expression
import Pictograph.Proofs.Analysis.Query
import Pictograph.Proofs.Source.Blocks
import Pictograph.Proofs.Source.Spelling

/-!
# What an analysis is put together from

Whatever is to be said about all runs of an analysis can be said about a few steps, about the
constructs that deal with variables, and about one thing behind another. This module says once and
for all that every construct is put together in this way, so that an induction need not go through
the constructs again.

Closures are left out. Their bodies run in frames of their own, in which most properties of a frame
start afresh, so each induction has to say what becomes of it there.

An expression is asked for in one way only: a token is read, and unless it ends the construct, the
expression that starts with it is analysed. This is one thing here, because an induction may have to
know that the token that was read is the one that the expression starts with.

## Main definitions

* `Reading.Composed`: readers that are put together from reading a token.
* `Analysis.Step`: a step that has to do with no particular variable.
* `Analysis.expressionUnless`: an expression, unless the next token stops it.
* `Composed`: an analysis that is put together from such steps and expressions.
* `Opening`: one that writes a word before it asks for an expression.

## Main results

* `composed_expressionStep`: every expression but a closure is composed.
* `opening_expressionStep`: and it writes a word first, unless it is a declaration.
* `composed_bodyStatements`: so are the statements of a body.
-/

namespace Pictograph

/-! ## Readers -/

/-- Whether a token introduces a variable with a value. -/
def Token.introduces (t : Token) : Bool := t.asksFor .assign || t.asksFor .declareFrozen

/-- A token asks for one construct. -/
theorem Token.asksFor_of_ne {t : Token} {c d : Construct} (h : t.asksFor c) (hne : c ≠ d) :
    t.asksFor d = false := by
  rw [Bool.eq_false_iff]
  intro hd
  exact hne (Option.some.inj ((beq_iff_eq.mp h).symm.trans (beq_iff_eq.mp hd)))

theorem Token.asksFor_of_introduces {t : Token} (h : t.introduces) {c : Construct}
    (ha : c ≠ .assign) (hf : c ≠ .declareFrozen) : t.asksFor c = false := by
  rw [introduces, Bool.or_eq_true] at h
  rcases h with h | h
  · exact asksFor_of_ne h ha.symm
  · exact asksFor_of_ne h hf.symm

theorem Token.exists_identifier?_of_introduces {t : Token} (h : t.introduces) :
    t.identifier? = some Construct.assign.spelling
      ∨ t.identifier? = some Construct.declareFrozen.spelling := by
  rw [introduces, Bool.or_eq_true] at h
  exact h.imp identifier?_of_asksFor identifier?_of_asksFor

namespace Reading

/-- How many tokens are left. -/
def remaining : Reading Nat := do
  return (← get).remaining

/-- A reader that is put together from reading a token and from accepting one. What it accepts
introduces no variable. -/
inductive Composed : {α : Type} → Reading α → Prop
  | pure {α : Type} (a : α) : Composed (pure a)
  | throw {α : Type} (fault : Fault) : Composed (throw fault : Reading α)
  | next : Composed next
  | accept {test : Token → Bool} (h : ∀ t, t.introduces → test t = false) : Composed (accept test)
  | remaining : Composed remaining
  | bind {α β : Type} {r : Reading α} {f : α → Reading β} (h : Composed r)
      (h' : ∀ a, Composed (f a)) : Composed (r >>= f)

namespace Composed

variable {α β : Type}

theorem map {r : Reading α} (f : α → β) (h : Composed r) : Composed (f <$> r) := by
  rw [map_eq_pure_bind]
  exact h.bind fun _ ↦ .pure _

/-- The number of tokens that are left may bound what is read. -/
theorem bounded {f : Nat → Reading α} (h : ∀ n, Composed (f n)) :
    Composed (get >>= fun c : Cursor ↦ f c.remaining) := by
  have hbind : Composed (Reading.remaining >>= f) := .bind .remaining h
  exact hbind

theorem ite {c : Prop} [Decidable c] {r r' : Reading α} (h : Composed r) (h' : Composed r') :
    Composed (if c then r else r') := by
  split
  · exact h
  · exact h'

theorem reject (expected : String) (t : Token) : Composed (reject expected t : Reading α) :=
  .throw _

theorem expect (category : Category) : Composed (expect category) :=
  .bind .next fun _ ↦ .ite (.pure _) (.reject _ _)

theorem expectConstruct (construct : Construct) (spelling : Symbol) :
    Composed (expectConstruct construct spelling) :=
  .bind .next fun _ ↦ .ite (.pure _) (.reject _ _)

theorem acceptConstruct {construct : Construct} (ha : construct ≠ .assign)
    (hf : construct ≠ .declareFrozen) : Composed (acceptConstruct construct) :=
  .accept fun _ ht ↦ Token.asksFor_of_introduces ht ha hf

theorem acceptSymbol {symbol : Symbol} (ha : symbol ≠ Construct.assign.spelling)
    (hf : symbol ≠ Construct.declareFrozen.spelling) : Composed (acceptSymbol symbol) := by
  refine .accept fun t ht ↦ ?_
  rcases Token.exists_identifier?_of_introduces ht with h | h
  · rw [h]
    exact beq_false_of_ne fun he ↦ ha (Option.some.inj he).symm
  · rw [h]
    exact beq_false_of_ne fun he ↦ hf (Option.some.inj he).symm

theorem acceptReference : Composed acceptReference := by
  rw [acceptReference_eq]
  refine .map _ (.accept fun t ht ↦ ?_)
  have hidentifier : t.identifier?.isSome := by
    rcases Token.exists_identifier?_of_introduces ht with h | h <;> rw [h] <;> rfl
  unfold Token.identifier? at hidentifier
  unfold Token.reference?
  split at hidentifier
  · next h => rw [h]; rfl
  · cases hidentifier

theorem name : Composed name := by
  refine .bind (.expect _) fun t ↦ ?_
  cases t.identifier? with
  | none => exact .reject _ _
  | some => exact .pure _

theorem variableName : Composed variableName := by
  refine .bind (.expect _) fun t ↦ ?_
  cases t.reference? with
  | none => exact .reject _ _
  | some => exact .pure _

end Composed

end Reading

namespace Catalogue

open Reading

variable {read : Reading Ty} (hread : read.Composed)

include hread

theorem composed_callableAnnotated (fuel : Nat) (arguments : List Ty) :
    ( callableAnnotation read fuel arguments).Composed := by
  induction fuel generalizing arguments with
  | zero => exact .throw _
  | succ fuel ih =>
    refine .bind (.acceptSymbol (by decide) (by decide)) fun _ ↦ .ite (.pure _) ?_
    refine .bind (.acceptSymbol (by decide) (by decide)) fun _ ↦ .ite ?_ ?_
    · exact .bind hread fun _ ↦ .bind (.expectConstruct _ _) fun _ ↦ .pure _
    · exact .bind hread fun _ ↦ ih _

theorem composed_genericArguments (constraints : List Ty) :
    (genericArguments read constraints).Composed := by
  induction constraints with
  | nil => exact .pure _
  | cons constraint rest ih =>
    refine .bind (.acceptSymbol (by decide) (by decide)) fun mark ↦ ?_
    dsimp only
    split
    · exact .bind hread fun _ ↦ .bind ih fun _ ↦ .pure _
    · exact .bind (.pure _) fun _ ↦ .bind ih fun _ ↦ .pure _

theorem composed_namedAnnotated (cat : Catalogue) (space name : Symbol) (span : Span) :
    ( cat.namedAnnotation read space name span).Composed := by
  unfold namedAnnotation
  split
  · exact .throw _
  · split
    · exact .pure _
    · refine .bind (composed_genericArguments hread _) fun _ ↦ ?_
      refine .bind (.acceptSymbol (by decide) (by decide)) fun mark ↦ ?_
      split
      · exact .pure _
      · exact .throw _

omit hread

theorem composed_dynamicAnnotated (context : Ty) (dynamism : Dynamism) (isOptional : Bool)
    (span : Span) : ( dynamicAnnotation context dynamism isOptional span).Composed := by
  unfold dynamicAnnotation
  refine .ite (.bind (.throw _) fun _ ↦ ?_) (.ite (.bind (.throw _) fun _ ↦ ?_) (.pure _))
  · exact .ite (.bind (.throw _) fun _ ↦ .pure _) (.pure _)
  · exact .pure _

theorem composed_annotationWithin (cat : Catalogue) (context : Ty) (fuel : Nat) (space : Symbol)
    (dynamism : Dynamism) : ( cat.annotationWithin context fuel space dynamism).Composed := by
  induction fuel generalizing space dynamism with
  | zero => exact .throw _
  | succ fuel ih =>
    have hnested (space : Symbol) := Composed.map Prod.fst (ih space .forbidden)
    refine .bind (.acceptSymbol (by decide) (by decide)) fun _ ↦ .bind .name fun (symbol, span) ↦ ?_
    dsimp only
    refine .ite (.bind (composed_dynamicAnnotated _ _ _ _) fun _ ↦ .pure _) ?_
    split
    · exact .pure _
    · refine .ite ?_ (.ite ?_ ?_)
      · exact .bounded (f := fun n ↦ callableAnnotation _ (n + 1) [] >>= _) fun _ ↦
          .bind (composed_callableAnnotated (hnested _) _ _) fun _ ↦ .pure _
      · exact .bind .name fun _ ↦ .bind .name fun _ ↦
          .bind (composed_namedAnnotated (hnested _) _ _ _ _) fun _ ↦ .pure _
      · exact .bind (composed_namedAnnotated (hnested _) _ _ _ _) fun _ ↦ .pure _

theorem composed_annotated (cat : Catalogue) (context : Ty) (space : Symbol)
    (dynamism : Dynamism) : ( cat.annotation context space dynamism).Composed :=
  .bounded fun _ ↦ composed_annotationWithin _ _ _ _ _

end Catalogue

/-! ## Steps -/

/-- Whether an instruction names no slot of the frame and is no closure. -/
def Opcode.isNeutral : Opcode → Bool
  | access .. | conditionalBind | forIn _ | closure => false
  | _ => true

/-- A change of the bookkeeping that has to do neither with slots nor with blocks. -/
def Frame.Retains (f : Frame → Frame) : Prop :=
  ∀ fr, (f fr).slotCount = fr.slotCount ∧ (f fr).flowDepth = fr.flowDepth

namespace Analysis

/-- How many tokens are left. -/
def remaining : Analysis Nat := do
  return (← get).cursor.remaining

/-- The place of the first statement after an unconditional return, if there is one next. -/
def deadPlace? : Analysis (Option Span) :=
  Option.map (·.span) <$> deadStatement?

/-- Leaves a block that may have been skipped. -/
def leaveConditional (withFields : Bool) : Analysis (List Slot) := do
  let (settled, environment) := (← get).environment.leaveConditional withFields
  modifyEnvironment fun _ ↦ environment
  return settled

/-- Enters a scope. -/
def enterScope : Analysis Unit := modifyEnvironment (·.push .empty)

/-- Leaves a scope, and recommends to freeze variables of it. -/
def leaveScope (Γ : Setting) : Analysis Unit := do
  if let some (left, environment) := (← get).environment.pop? then
    modifyEnvironment fun _ ↦ environment
    recommendFrozen Γ left.freezable

/-- Enters a block that may be skipped, one level deeper. -/
def enterBlock (withFields : Bool) : Analysis Unit := do
  enterConditional withFields
  modifyFrame fun f ↦ { f with flowDepth := f.flowDepth + 1 }

/-- Leaves a block that may have been skipped, and the level of the block. -/
def leaveBlock (withFields : Bool) : Analysis (List Slot) := do
  let settled ← leaveConditional withFields
  modifyFrame fun f ↦
    { f with hasEffect := true, flowDepth := f.flowDepth - 1, hasReturned := false }
  return settled

/-- Runs an analysis in a block that may be skipped. -/
def inBlock (withFields : Bool) (m : Analysis Unit) : Analysis (List Slot) := do
  enterBlock withFields
  m
  leaveBlock withFields

/-- Gives a value to the variables in some slots. -/
def settleEach (slots : List Slot) : Analysis Unit :=
  modifyEnvironment (slots.foldl Environment.settle)

/-- A step that has to do with no particular variable and no block. -/
inductive Step : {α : Type} → Analysis α → Prop
  | pure {α : Type} (a : α) : Step (pure a)
  | throw {α : Type} (fault : Fault) : Step (throw fault : Analysis α)
  | reading {α : Type} {r : Reading α} (h : r.Composed) : Step (reading r)
  | here : Step here
  | remaining : Step remaining
  | deadPlace? : Step deadPlace?
  | setLine (line : Nat) : Step (setLine line)
  | emit {op : Opcode} (h : op.isNeutral) : Step (emit op)
  | emitWord (w : UInt32) : Step (emitWord w)
  | reserve : Step reserve
  | reserveCount : Step reserveCount
  | fill (hole : Hole) (w : UInt32) : Step (fill hole w)
  | fillOpcode (hole : Hole) {op : Opcode} (h : op.isNeutral) : Step (fillOpcode hole op)
  | fillCount (hole : CountHole) : Step (fillCount hole)
  | warn {remark : Remark} (span : Span) (h : ∀ x, remark ≠ .couldBeFrozen x) :
    Step (warn remark span)
  | intern (content : String) : Step (intern content)
  | frame : Step frame
  | modifyFrame {f : Frame → Frame} (h : Frame.Retains f) : Step (modifyFrame f)
  | requireComplete (Γ : Setting) (span : Span) : Step (requireComplete Γ span)
  | enterScope : Step enterScope
  | leaveScope (Γ : Setting) : Step (leaveScope Γ)
  | settleEach (slots : List Slot) : Step (settleEach slots)

/-- Reads a token and analyses the expression that starts with it, unless the token stops it.
Returns the place of the token, and the type of the expression if there is one. -/
def expressionUnless (Γ : Setting) (rec : Recursion) (stops : Token → Bool)
    (before : Frame → Frame) (hint : Option Ty) : Analysis (Span × Option Ty) := do
  let token ← next
  if stops token then
    return (token.span, none)
  modifyFrame before
  return (token.span, some (← rec Γ token hint))

end Analysis

/-- Whether a construct writes to a variable that may be there already. -/
def Construct.writes : Construct → Bool
  | assign | increment | decrement => true
  | _ => false

open Analysis in
/-- An analysis that is put together from steps, expressions and the constructs that deal with
variables. `W` holds of these. -/
inductive Composed (W : Construct → Prop) : {α : Type} → (Recursion → Analysis α) → Prop
  | step {α : Type} {m : Analysis α} (h : Step m) : Composed W fun _ ↦ m
  | bind {α β : Type} {m : Recursion → Analysis α} {f : Recursion → α → Analysis β}
    (h : Composed W m) (h' : ∀ a, Composed W fun r ↦ f r a) : Composed W fun r ↦ m r >>= f r
  /-- An expression, unless a token stops it. Such a token introduces no variable. -/
  | expression (Γ : Setting) {stops : Token → Bool} {before : Frame → Frame} (hint : Option Ty)
    (hstops : ∀ t, t.introduces → stops t = false) (hbefore : Frame.Retains before) :
    Composed W fun r ↦ expressionUnless Γ r stops before hint
  | inBlock (withFields : Bool) {m : Recursion → Analysis Unit} (h : Composed W m) :
    Composed W fun r ↦ inBlock withFields (m r)
  | readVariable (x : String) (span : Span) : Composed W fun _ ↦ readVariable x span
  | stepVariable (Γ : Setting) (construct : Construct) {action : Access}
    (h : action = .increment ∨ action = .decrement) (hc : construct.writes) (hw : W construct) :
    Composed W fun _ ↦ stepVariable Γ construct action
  | declareVariable (Γ : Setting) (hw : W .declare) : Composed W fun _ ↦ declareVariable Γ
  | assign (Γ : Setting) (hw : W .assign) : Composed W fun r ↦ assign Γ r
  | declareFrozen (Γ : Setting) (hw : W .declareFrozen) : Composed W fun r ↦ declareFrozen Γ r
  | condition (Γ : Setting) (hw : W .ifBranch) : Composed W fun r ↦ condition Γ r
  | forIn (Γ : Setting) (span : Span) (hw : W .forIn)
    (h : Composed W fun r ↦ conditionalBlock Γ r) :
    Composed W fun r ↦ forIn Γ r span

open Analysis in
/-- An analysis that is put together in this way and writes a word of code before it asks for an
expression. -/
inductive Opening (W : Construct → Prop) : {α : Type} → (Recursion → Analysis α) → Prop
  | throw {α : Type} (fault : Fault) : Opening W fun _ ↦ (throw fault : Analysis α)
  | emit {op : Opcode} (h : op.isNeutral) : Opening W fun _ ↦ emit op
  | reserve : Opening W fun _ ↦ reserve
  | readVariable (x : String) (span : Span) : Opening W fun _ ↦ readVariable x span
  | stepVariable (Γ : Setting) (construct : Construct) {action : Access}
    (h : action = .increment ∨ action = .decrement) (hc : construct.writes) (hw : W construct) :
    Opening W fun _ ↦ stepVariable Γ construct action
  | assign (Γ : Setting) (hw : W .assign) : Opening W fun r ↦ assign Γ r
  | declareFrozen (Γ : Setting) (hw : W .declareFrozen) : Opening W fun r ↦ declareFrozen Γ r
  | forIn (Γ : Setting) (span : Span) (hw : W .forIn)
    (h : Composed W fun r ↦ conditionalBlock Γ r) :
    Opening W fun r ↦ forIn Γ r span
  /-- Something may come behind the word. -/
  | first {α β : Type} {m : Recursion → Analysis α} {f : Recursion → α → Analysis β}
    (h : Opening W m) (h' : ∀ a, Composed W fun r ↦ f r a) : Opening W fun r ↦ m r >>= f r
  /-- Steps that ask nothing may come in front of it. -/
  | behind {α β : Type} {x : Analysis α} {f : Recursion → α → Analysis β}
    (h : Composed W fun _ ↦ x) (h' : ∀ a, Opening W fun r ↦ f r a) :
    Opening W fun r ↦ x >>= f r

namespace Composed

open Analysis

variable {W : Construct → Prop} {α β σ : Type} {Γ : Setting} {m : Recursion → Analysis α}

/-! ## Rules -/

theorem pure (a : α) : Composed W fun _ ↦ (pure a : Analysis α) := .step (.pure a)

theorem throw (fault : Fault) : Composed W fun _ ↦ (throw fault : Analysis α) :=
  .step (.throw fault)

theorem reading {r : Reading α} (h : r.Composed) : Composed W fun _ ↦ Analysis.reading r :=
  .step (.reading h)

theorem ite {c : Prop} [Decidable c] {m m' : Recursion → Analysis α} (h : Composed W m)
    (h' : Composed W m') : Composed W fun r ↦ if c then m r else m' r := by
  by_cases hc : c
  · simpa only [if_pos hc] using h
  · simpa only [if_neg hc] using h'

/-- A step that may be left out. -/
theorem optional {c : Prop} [Decidable c] {x : Recursion → Analysis Unit}
    {f : Recursion → Unit → Analysis α} (hx : Composed W x) (hf : Composed W fun r ↦ f r ()) :
    Composed W fun r ↦ if c then x r >>= f r else f r () :=
  .ite (.bind hx fun _ ↦ hf) hf

theorem map (g : α → β) (h : Composed W m) : Composed W fun r ↦ g <$> m r := by
  simp only [map_eq_pure_bind]
  exact h.bind fun _ ↦ .pure _

theorem fail (cause : Cause) (span : Span) : Composed W fun _ ↦ (fail cause span : Analysis α) :=
  .throw _

theorem require (condition : Bool) (cause : Cause) (span : Span) :
    Composed W fun _ ↦ require condition cause span :=
  .ite (.pure _) (.fail _ _)

theorem demand (value? : Option α) (cause : Cause) (span : Span) :
    Composed W fun _ ↦ demand value? cause span := by
  cases value? with
  | none => exact .fail _ _
  | some a => exact .pure a

theorem repeating {step : Recursion → σ → Analysis (σ ⊕ β)}
    (h : ∀ v, Composed W fun r ↦ step r v) (fuel : Nat) (v : σ) :
    Composed W fun r ↦ repeating (step r) fuel v := by
  induction fuel generalizing v with
  | zero => exact .throw _
  | succ fuel ih =>
    refine .bind (h v) fun answer ↦ ?_
    cases answer with
    | inl v => exact ih v
    | inr b => exact .pure b

theorem repeatUntil {step : Recursion → σ → Analysis (σ ⊕ β)}
    (h : ∀ v, Composed W fun r ↦ step r v) (v : σ) :
    Composed W fun r ↦ repeatUntil (step r) v := by
  have hbind : Composed W fun r ↦ remaining >>= fun n ↦ Analysis.repeating (step r) (n + 1) v :=
    .bind (.step .remaining) fun _ ↦ .repeating h _ _
  exact hbind

theorem next : Composed W fun _ ↦ next := .reading .next

theorem name : Composed W fun _ ↦ name := .reading .name

theorem accepts {construct : Construct} (ha : construct ≠ .assign)
    (hf : construct ≠ .declareFrozen) : Composed W fun _ ↦ accepts construct :=
  .map _ (.reading (.acceptConstruct ha hf))

theorem annotated (Γ : Setting) (dynamism : Dynamism) :
    Composed W fun _ ↦ annotation Γ dynamism :=
  .reading (Γ.catalogue.composed_annotated _ _ _)

theorem emit {op : Opcode} (h : op.isNeutral) : Composed W fun _ ↦ emit op := .step (.emit h)

theorem emitWord (w : UInt32) : Composed W fun _ ↦ emitWord w := .step (.emitWord w)

theorem emitNumber (n : Nat) : Composed W fun _ ↦ emitNumber n := .emitWord _

theorem emitWide (value : UInt64) : Composed W fun _ ↦ emitWide value := by
  have hwords : Composed W fun _ ↦ Analysis.emitWord (Chunk.highWord value)
      >>= fun _ ↦ Analysis.emitWord (Chunk.lowWord value) :=
    .bind (.emitWord _) fun _ ↦ .emitWord _
  exact hwords

theorem useSelf : Composed W fun _ ↦ useSelf := .step (.modifyFrame fun _ ↦ ⟨rfl, rfl⟩)

theorem inScope_eq (Γ : Setting) (m : Analysis α) :
    inScope Γ m = (do
      enterScope
      let value ← m
      leaveScope Γ
      return value) := by
  unfold inScope leaveScope
  refine congrArg (enterScope >>= ·) (funext fun _ ↦ congrArg (m >>= ·) (funext fun value ↦ ?_))
  rw [bind_assoc]
  refine congrArg (get >>= ·) (funext fun s ↦ ?_)
  cases s.environment.pop? with
  | none => rfl
  | some p => exact (bind_assoc _ _ _).symm

/-- A scope around an analysis is entered in front of it and left behind it. -/
theorem inScope (h : Composed W m) : Composed W fun r ↦ inScope Γ (m r) := by
  simp only [inScope_eq]
  exact .bind (.step .enterScope) fun _ ↦ .bind h fun _ ↦
    .bind (.step (.leaveScope Γ)) fun _ ↦ .pure _

/-! ## Expressions -/

section

variable {stops : Token → Bool} {before : Frame → Frame} {hint : Option Ty}
  {stop : Recursion → Span → Analysis α} {go : Recursion → Ty → Span → Analysis α}

/-- An expression, unless a token stops it, and what comes behind either. -/
theorem expressionUnless (hstops : ∀ t, t.introduces → stops t = false)
    (hbefore : Frame.Retains before)
    (hstop : ∀ span, Composed W fun r ↦ stop r span)
    (hgo : ∀ t span, Composed W fun r ↦ go r t span) :
    Composed W fun r ↦ (do
      let token ← Analysis.next
      if stops token then
        stop r token.span
      else
        modifyFrame before
        go r (← r Γ token hint) token.span) := by
  have heq : (fun r : Recursion ↦ (do
      let token ← Analysis.next
      if stops token then
        stop r token.span
      else
        modifyFrame before
        go r (← r Γ token hint) token.span))
      = fun r ↦ Analysis.expressionUnless Γ r stops before hint >>= fun x ↦
        x.2.elim (stop r x.1) (go r · x.1) := by
    funext r
    rw [Analysis.expressionUnless, bind_assoc]
    refine congrArg (Analysis.next >>= ·) (funext fun token ↦ ?_)
    split
    · rw [pure_bind]
      rfl
    · simp only [bind_assoc, pure_bind]
      rfl
  rw [heq]
  refine .bind (.expression Γ hint hstops hbefore) fun x ↦ ?_
  obtain ⟨span, t?⟩ := x
  cases t? with
  | none => exact hstop span
  | some t => exact hgo t span

/-- An expression, unless the mark of an ending stops it, and what comes behind. -/
theorem askUnless (ending : Construct) (a : α)
    (hending : ∀ t : Token, t.introduces → t.asksFor ending = false)
    (hgo : ∀ t span, Composed W fun r ↦ go r t span) :
    Composed W fun r ↦ (do
      let token ← Analysis.next
      if token.asksFor ending then
        return a
      else
        go r (← r Γ token hint) token.span) := by
  have hask : Composed W fun r ↦ (do
      let token ← Analysis.next
      if token.asksFor ending then
        return a
      else
        modifyFrame id
        go r (← r Γ token hint) token.span) :=
    .expressionUnless hending (fun _ ↦ ⟨rfl, rfl⟩) (fun _ ↦ .pure a) hgo
  exact hask

/-- An expression and what comes behind it. -/
theorem ask (hgo : ∀ t span, Composed W fun r ↦ go r t span) :
    Composed W fun r ↦ (do
      let token ← Analysis.next
      go r (← r Γ token hint) token.span) := by
  -- no token stops it, so it does not matter what would be done then
  have hask : Composed W fun r ↦ (do
      let token ← Analysis.next
      if false then
        Analysis.fail .missingReturn token.span
      else
        modifyFrame id
        go r (← r Γ token hint) token.span) :=
    .expressionUnless (fun _ _ ↦ rfl) (fun _ ↦ ⟨rfl, rfl⟩) (fun _ ↦ .fail _ _) hgo
  exact hask

end

end Composed

namespace Opening

open Analysis

variable {W : Construct → Prop} {α : Type} {m m' : Recursion → Analysis α}

theorem composed (h : Opening W m) : Composed W m := by
  induction h with
  | throw fault => exact .throw fault
  | emit h => exact .emit h
  | reserve => exact .step .reserve
  | readVariable x span => exact .readVariable x span
  | stepVariable Γ construct h hc hw => exact .stepVariable Γ construct h hc hw
  | assign Γ hw => exact .assign Γ hw
  | declareFrozen Γ hw => exact .declareFrozen Γ hw
  | forIn Γ span hw h => exact .forIn Γ span hw h
  | first _ h' ih => exact ih.bind h'
  | behind h _ ih' => exact h.bind ih'

theorem ite {c : Prop} [Decidable c] (h : Opening W m) (h' : Opening W m') :
    Opening W fun r ↦ if c then m r else m' r := by
  by_cases hc : c
  · simpa only [if_pos hc] using h
  · simpa only [if_neg hc] using h'

/-- A step that may be left out. -/
theorem optional {c : Prop} [Decidable c] {x : Analysis Unit} {f : Recursion → Unit → Analysis α}
    (hx : Composed W fun _ ↦ x) (hf : Opening W fun r ↦ f r ()) :
    Opening W fun r ↦ if c then x >>= f r else f r () :=
  .ite (.behind hx fun _ ↦ hf) hf

end Opening

/-! ## Operands, arguments and statements -/

section

open Analysis Composed

variable {W : Construct → Prop} {α : Type} {Γ : Setting} {span : Span}

theorem composed_operand : Composed W fun r ↦ operand Γ r := by
  simp only [operand]
  have hask : Composed W fun r ↦ next >>= fun token ↦ r Γ token none >>= Pure.pure :=
    .ask fun t _ ↦ .pure t
  simpa only [bind_pure] using hask

theorem composed_operandAndSpan : Composed W fun r ↦ operandAndSpan Γ r := .ask fun _ _ ↦ .pure _

theorem composed_requireFitting (expected found : Ty) (span : Span) :
    Composed W fun _ ↦ (do
      Analysis.require (Γ.catalogue.fits found expected)
        (.incompatible (Γ.typeName expected) (Γ.typeName found)) span
      return found) :=
  .bind (.require _ _ _) fun _ ↦ .pure _

theorem composed_operandFitting (expected : Ty) :
    Composed W fun r ↦ operandFitting Γ r expected := by
  simp only [operandFitting, fitting]
  exact .ask (composed_requireFitting expected)

theorem composed_operandsFitting (expected : List Ty) :
    Composed W fun r ↦ operandsFitting Γ r expected := by
  induction expected with
  | nil => exact .pure _
  | cons t ts ih => exact .bind (composed_operandFitting t) fun _ ↦ ih

theorem composed_arguments (expected : List Ty) : Composed W fun r ↦ arguments Γ r expected := by
  refine .bind (.reading (.accept fun t ht ↦ ?_)) fun _ ↦
    .bind (composed_operandsFitting expected) fun _ ↦
      .ite (.bind (.reading (.expect _)) fun _ ↦ .pure _) (.pure _)
  rw [beq_eq_false_iff_ne]
  intro hl
  rcases Token.exists_identifier?_of_introduces ht with h | h <;>
    simp [Token.identifier?, hl] at h

theorem composed_requireAccess (m : Member) : Composed W fun _ ↦ requireAccess Γ m span :=
  .require _ _ _

theorem composed_callMember (m : Member) (receiver : Ty) :
    Composed W fun r ↦ callMember Γ r m receiver span :=
  .bind (composed_requireAccess m) fun _ ↦ .bind (composed_arguments _) fun _ ↦ .pure _

/-! ## Blocks -/

/-- A statement, unless the mark that closes a block stops it, and what comes behind either. -/
theorem composed_statementUnless {stop : Recursion → Span → Analysis α}
    {f : Recursion → Analysis α} (hstop : ∀ span, Composed W fun r ↦ stop r span)
    (hf : Composed W f) :
    Composed W fun r ↦ (do
      let token ← next
      if token.asksFor .blockClose then
        stop r token.span
      else
        statement Γ r token
        f r) := by
  have hgo (t : Ty) (span : Span) : Composed W fun r ↦ frame >>= fun fr ↦
      (if !fr.hasEffect then warn .noEffect span else Pure.pure ()) >>= fun _ ↦ f r :=
    .bind (.step .frame) fun _ ↦ .bind (.ite (.step (.warn _ nofun)) (.pure _)) fun _ ↦ hf
  have hstops (t : Token) (ht : t.introduces) : t.asksFor .blockClose = false :=
    t.asksFor_of_introduces ht nofun nofun
  have hbefore : Frame.Retains fun fr ↦ { fr with hasEffect := false } := fun _ ↦ ⟨rfl, rfl⟩
  have hask := @Composed.expressionUnless W α Γ _ _ none stop _ hstops hbefore hstop hgo
  simpa only [statement, bind_assoc] using hask

theorem composed_statements : Composed W fun r ↦ statements Γ r := by
  refine .repeatUntil (fun _ ↦ ?_) ()
  exact composed_statementUnless (fun _ ↦ .pure _) (.pure _)

theorem conditionalBlock_eq (Γ : Setting) (rec : Recursion) :
    conditionalBlock Γ rec = Analysis.inBlock (!Γ.isStatic) (do
      let _ ← reading (Reading.expectConstruct .blockOpen Construct.blockOpen.spelling)
      let count ← reserveCount
      statements Γ rec
      fillCount count) := by
  unfold conditionalBlock Analysis.inBlock enterBlock leaveBlock leaveConditional
  simp only [bind_assoc, pure_bind]

theorem composed_conditionalBlock : Composed W fun r ↦ conditionalBlock Γ r := by
  simp only [conditionalBlock_eq]
  exact .inBlock _ (.bind (.reading (.expectConstruct _ _)) fun _ ↦ .bind (.step .reserveCount)
    fun _ ↦ .bind composed_statements fun _ ↦ .step (.fillCount _))

theorem composed_branch (hw : W .ifBranch) : Composed W fun r ↦ branch Γ r :=
  .inScope (.bind (.condition Γ hw) fun _ ↦ composed_conditionalBlock)

theorem composed_skipBody : Composed W fun _ ↦ skipBody := by
  refine .repeatUntil (fun _ ↦ .bind .next fun _ ↦ .ite (.pure _) (.ite ?_ (.pure _))) 0
  exact .pure _

theorem bodyStatements_eq_deadPlace? (Γ : Setting) (rec : Recursion) :
    bodyStatements Γ rec = repeatUntil (fun reported ↦ do
      let token ← next
      if token.asksFor .blockClose then
        return .inr token.span
      statement Γ rec token
      if reported then
        return .inl true
      match ← deadPlace? with
      | none => return .inl false
      | some span =>
        warn .deadCode span
        if Γ.options.compilesDeadCode then
          return .inl true
        return .inr (← skipBody)) false := by
  unfold bodyStatements deadPlace?
  refine congrArg (Analysis.repeatUntil · false) (funext fun reported ↦ ?_)
  refine congrArg (next >>= ·) (funext fun token ↦ ?_)
  simp only [map_eq_pure_bind, bind_assoc, pure_bind]
  split
  · rfl
  · refine congrArg (statement Γ rec token >>= ·) (funext fun _ ↦ ?_)
    split
    · rfl
    · refine congrArg (deadStatement? >>= ·) (funext fun dead? ↦ ?_)
      cases dead? <;> rfl

theorem composed_bodyStatements : Composed W fun r ↦ bodyStatements Γ r := by
  simp only [bodyStatements_eq_deadPlace?]
  refine .repeatUntil (fun reported ↦ ?_) false
  refine composed_statementUnless (fun _ ↦ .pure _) (.ite (.pure _) ?_)
  refine .bind (.step .deadPlace?) fun dead? ↦ ?_
  cases dead? with
  | none => exact .pure _
  | some span =>
    exact .bind (.step (.warn _ nofun)) fun _ ↦ .ite (.pure _)
      (.bind composed_skipBody fun _ ↦ .pure _)

theorem composed_closureArguments : Composed W fun _ ↦ closureArguments Γ := by
  refine .repeatUntil (fun arguments ↦ .bind (.reading .acceptReference) fun x? ↦ ?_) []
  cases x? with
  | none => exact .pure _
  | some x => exact .bind (.annotated Γ _) fun _ ↦ .pure _

theorem composed_closureResult : Composed W fun _ ↦ closureResult Γ :=
  .bind (.reading (.acceptSymbol (by decide) (by decide))) fun _ ↦
    .ite (.bind (.annotated Γ _) fun _ ↦ .pure _) (.pure _)

/-! ## Constructs -/

theorem opening_ifChain (hw : W .ifBranch) : Opening W fun r ↦ ifChain Γ r := by
  have hsettle (slots : List Slot) : Composed W fun _ ↦ settleEach slots :=
    .step (.settleEach slots)
  refine .first (.emit rfl) fun _ ↦ .bind (.step .reserveCount) fun _ ↦
    .bind (composed_branch hw) fun _ ↦ .bind (.repeatUntil (fun _ ↦ ?_) _) fun _ ↦
    .bind (.accepts nofun nofun) fun _ ↦ .ite ?_ ?_
  · refine .bind (.accepts nofun nofun) fun _ ↦ .ite ?_ (.pure _)
    exact .bind (.emit rfl) fun _ ↦ .bind (composed_branch hw) fun _ ↦ .pure _
  · exact .bind (.emit rfl) fun _ ↦ .bind (.inScope composed_conditionalBlock) fun _ ↦
      .bind (.step (.fillCount _)) fun _ ↦ .bind (hsettle _) fun _ ↦ .pure _
  · exact .bind (.step (.fillCount _)) fun _ ↦ .pure _

theorem opening_repeatWhile : Opening W fun r ↦ repeatWhile Γ r :=
  .first (.emit rfl) fun _ ↦ .bind (composed_operandFitting _) fun _ ↦
    .bind (.inScope composed_conditionalBlock) fun _ ↦ .pure _

theorem opening_returnValue : Opening W fun r ↦ returnValue Γ r span := by
  refine .behind (.step .frame) fun _ ↦ .behind (.require _ _ _) fun _ ↦
    .behind (.step (.modifyFrame fun _ ↦ ⟨rfl, rfl⟩)) fun _ ↦ ?_
  cases Γ.initializer? with
  | none =>
    exact .behind (.require _ _ _) fun _ ↦ .first (.emit rfl) fun _ ↦
      .bind (composed_operandFitting _) fun _ ↦
      .bind (.step (.modifyFrame fun _ ↦ ⟨rfl, rfl⟩)) fun _ ↦ .pure _
  | some initializer =>
    exact .behind (.require _ _ _) fun _ ↦ .first (.emit rfl) fun _ ↦
      .bind (composed_operandFitting _) fun _ ↦ .pure _

theorem opening_concatenate : Opening W fun r ↦ concatenate Γ r := by
  refine .first (.emit rfl) fun _ ↦ .bind (.step .reserve) fun _ ↦
    .bind (composed_operandFitting _) fun _ ↦ .bind (.repeatUntil (fun strings ↦ ?_) 1) fun _ ↦
    .bind (.step (.fill _ _)) fun _ ↦ .pure _
  have hgo (found : Ty) (span : Span) : Composed W fun _ ↦ (do
      Analysis.require (Γ.catalogue.fits found .string)
        (.incompatible (Γ.typeName .string) (Γ.typeName found)) span
      return .inl (strings + 1) : Analysis (Nat ⊕ Nat)) :=
    .bind (.require _ _ _) fun _ ↦ .pure _
  simp only [fitting, bind_assoc, pure_bind]
  exact .askUnless .concatenate _ (fun _ ht ↦ Token.asksFor_of_introduces ht nofun nofun) hgo

theorem composed_emptyElement (collection : TypeId) (hint : Option Ty) :
    Composed W fun _ ↦ emptyElement collection hint span := by
  unfold emptyElement
  split
  · exact .pure _
  · exact .bind (.step (.warn _ nofun)) fun _ ↦ .pure _

theorem opening_collection {opcode : Opcode} (hop : opcode.isNeutral) (id : TypeId)
    {part : Recursion → Token → Analysis Ty} (hint : Option Ty)
    (hpart : ∀ common?, Composed W fun r ↦ (do
      let token ← next
      if token.asksFor .collectionEnd then
        return .inr common?
      return .inl (Γ.catalogue.joinNext common? (← part r token)) :
        Analysis (Option Ty ⊕ Option Ty))) :
    Opening W fun r ↦ collection Γ opcode id (part r) hint span := by
  refine .first (.emit hop) fun _ ↦ .bind (.step .reserveCount) fun _ ↦
    .bind (.repeatUntil hpart none) fun common? ↦ .bind (.step (.fillCount _)) fun _ ↦ ?_
  cases common? with
  | none => exact .bind (composed_emptyElement id hint) fun _ ↦ .pure _
  | some element => exact .bind (.pure element) fun _ ↦ .pure _

theorem opening_list (hint : Option Ty) : Opening W fun r ↦ list Γ r hint span := by
  refine opening_collection rfl _ hint fun common? ↦ ?_
  have hgo (t : Ty) (_span : Span) : Composed W fun _ ↦
      (return .inl (Γ.catalogue.joinNext common? t) : Analysis (Option Ty ⊕ Option Ty)) :=
    .pure _
  exact .askUnless .collectionEnd _ (fun _ ht ↦ Token.asksFor_of_introduces ht nofun nofun) hgo

theorem opening_dictionary (hint : Option Ty) : Opening W fun r ↦ dictionary Γ r hint span := by
  refine opening_collection rfl _ hint fun common? ↦ ?_
  have hgo (found : Ty) (span : Span) : Composed W fun r ↦ (do
      Analysis.require (Γ.catalogue.fits found .string)
        (.incompatible (Γ.typeName .string) (Γ.typeName found)) span
      return .inl (Γ.catalogue.joinNext common? (← operand Γ r)) :
        Analysis (Option Ty ⊕ Option Ty)) :=
    .bind (.require _ _ _) fun _ ↦ .bind composed_operand fun _ ↦ .pure _
  simp only [fitting, bind_assoc, pure_bind]
  exact .askUnless .collectionEnd _ (fun _ ht ↦ Token.asksFor_of_introduces ht nofun nofun) hgo

theorem composed_emitEnumNumber (opcode : Hole) (number : UInt64) :
    Composed W fun _ ↦ emitEnumNumber opcode number :=
  .ite (.bind (.step (.fillOpcode _ rfl)) fun _ ↦ .emitWord _)
    (.bind (.step (.fillOpcode _ rfl)) fun _ ↦ .emitWide _)

theorem opening_enumValue : Opening W fun _ ↦ enumValue Γ span :=
  .first .reserve fun _ ↦ .bind (.annotated Γ _) fun _ ↦ .bind (.require _ _ _) fun _ ↦
    .bind (.require _ _ _) fun _ ↦ .bind .name fun _ ↦ .bind (.demand _ _ _) fun _ ↦
    .bind (composed_emitEnumNumber _ _) fun _ ↦ .pure _

theorem opening_selfReference : Opening W fun _ ↦ selfReference Γ span :=
  .behind (.require _ _ _) fun _ ↦ .behind (.step .frame) fun _ ↦ .behind (.require _ _ _) fun _ ↦
    .behind (.step (.requireComplete Γ _)) fun _ ↦ .behind .useSelf fun _ ↦
    .first (.emit rfl) fun _ ↦ .pure _

theorem opening_instantiate : Opening W fun r ↦ instantiate Γ r span :=
  .first (.emit rfl) fun _ ↦ .bind (.annotated Γ _) fun _ ↦ .bind (.demand _ _ _) fun _ ↦
    .bind (.require _ _ _) fun _ ↦ .bind (.emitWord _) fun _ ↦ .bind .name fun _ ↦
    .bind (.demand _ _ _) fun _ ↦ .bind (.require _ _ _) fun _ ↦ .bind (.emitNumber _) fun _ ↦
    .bind (composed_requireAccess _) fun _ ↦ .bind (composed_arguments _) fun _ ↦ .pure _

theorem opening_superInitializer : Opening W fun r ↦ superInitializer Γ r span :=
  .behind (.require _ _ _) fun _ ↦ .behind (.demand _ _ _) fun _ ↦ .behind (.step .frame) fun _ ↦
    .behind (.require _ _ _) fun _ ↦ .behind (.step .frame) fun _ ↦
    .behind (.require _ _ _) fun _ ↦ .behind (.step (.requireComplete Γ _)) fun _ ↦
    .first (.emit rfl) fun _ ↦ .bind (.emitNumber _) fun _ ↦ .bind .name fun _ ↦
    .bind (.demand _ _ _) fun _ ↦ .bind (.emitNumber _) fun _ ↦
    .bind (composed_requireAccess _) fun _ ↦ .bind (composed_arguments _) fun _ ↦
    .bind (.step (.modifyFrame fun _ ↦ ⟨rfl, rfl⟩)) fun _ ↦ .pure _

theorem opening_cast : Opening W fun r ↦ cast Γ r span := by
  refine .first .reserve fun _ ↦ .bind (composed_operandFitting _) fun found ↦
    .bind (.annotated Γ _) fun (target, _) ↦ .optional (.step (.warn _ nofun)) ?_
  dsimp only
  split
  · exact .bind (.demand _ _ _) fun _ ↦ .bind (.require _ _ _) fun _ ↦
      .bind (.step (.fillOpcode _ rfl)) fun _ ↦ .bind (.emitNumber _) fun _ ↦ .pure _
  · exact .bind (.demand _ _ _) fun _ ↦ .bind (.step (.fillOpcode _ rfl)) fun _ ↦
      .bind (.emitNumber _) fun _ ↦ .pure _
  · exact .bind (.step (.fillOpcode _ rfl)) fun _ ↦ .pure _
  · exact .bind (.step (.fillOpcode _ rfl)) fun _ ↦ .pure _
  · exact .bind (.step (.fillOpcode _ rfl)) fun _ ↦ .pure _
  · exact .bind (.step (.fillOpcode _ rfl)) fun _ ↦ .pure _
  · exact .bind (.fail _ _) fun _ ↦ .pure _

theorem opening_unwrap : Opening W fun r ↦ unwrap Γ r span :=
  .first (.emit rfl) fun _ ↦ .bind composed_operand fun _ ↦ .bind (.require _ _ _) fun _ ↦ .pure _

theorem opening_call (method : Symbol) : Opening W fun r ↦ call Γ r method span := by
  refine .first .reserve fun _ ↦ .bind composed_operandAndSpan fun (receiver, _) ↦
    .bind (.require _ _ _) fun _ ↦ ?_
  dsimp only
  split
  · exact .bind (.demand _ _ _) fun _ ↦ .bind (.demand _ _ _) fun _ ↦
      .bind (.step (.fillOpcode _ rfl)) fun _ ↦ .bind (.emitNumber _) fun _ ↦
      .bind (.emitNumber _) fun _ ↦ composed_callMember _ _
  · exact .bind (.demand _ _ _) fun _ ↦ .bind (.step (.fillOpcode _ rfl)) fun _ ↦
      .bind (.emitNumber _) fun _ ↦ composed_callMember _ _
  · refine .bind (.demand _ _ _) fun operation ↦ .bind (.step (.fillOpcode _ rfl)) fun _ ↦ ?_
    cases operation.operand? with
    | none => exact .pure _
    | some operand => exact .bind (composed_operandFitting _) fun _ ↦ .pure _

theorem opening_optionalChain : Opening W fun r ↦ optionalChain Γ r span :=
  .first (.emit rfl) fun _ ↦ .bind (.step .reserveCount) fun _ ↦ .bind .name fun _ ↦
    .bind composed_operand fun _ ↦ .bind (.require _ _ _) fun _ ↦ .bind (.demand _ _ _) fun _ ↦
    .bind (.emitNumber _) fun _ ↦ .bind (.step (.fillCount _)) fun _ ↦
    .bind (composed_callMember _ _) fun _ ↦ .pure _

theorem opening_callClassMethod : Opening W fun r ↦ callClassMethod Γ r :=
  .first (.emit rfl) fun _ ↦ .bind .name fun _ ↦ .bind (.annotated Γ _) fun _ ↦
    .optional (.step (.warn _ nofun)) (.bind (.demand _ _ _) fun _ ↦ .bind (.emitWord _) fun _ ↦
      .bind (.demand _ _ _) fun _ ↦ .bind (.emitNumber _) fun _ ↦ composed_callMember _ _)

theorem opening_callSuperMethod : Opening W fun r ↦ callSuperMethod Γ r span :=
  .behind .name fun _ ↦ .behind (.require _ _ _) fun _ ↦ .behind (.demand _ _ _) fun _ ↦
    .first (.emit rfl) fun _ ↦ .bind (.emitNumber _) fun _ ↦ .bind (.demand _ _ _) fun _ ↦
    .bind (.emitNumber _) fun _ ↦ .bind .useSelf fun _ ↦ composed_callMember _ _

theorem opening_captureMethod : Opening W fun r ↦ captureMethod Γ r :=
  .behind .name fun _ ↦ .first (.emit rfl) fun _ ↦ .bind composed_operandAndSpan fun _ ↦
    .bind (.require _ _ _) fun _ ↦ .bind (.demand _ _ _) fun _ ↦ .bind (.emitNumber _) fun _ ↦
    .bind (composed_requireAccess _) fun _ ↦ .pure _

theorem opening_invoke : Opening W fun r ↦ invoke Γ r :=
  .first (.emit rfl) fun _ ↦ .bind composed_operandAndSpan fun _ ↦ .bind (.require _ _ _) fun _ ↦
    .bind (composed_arguments _) fun _ ↦ .pure _

theorem opening_isNothingness : Opening W fun r ↦ isNothingness Γ r :=
  .first (.emit rfl) fun _ ↦ .bind composed_operand fun _ ↦ .pure _

theorem opening_identical : Opening W fun r ↦ identical Γ r :=
  .first (.emit rfl) fun _ ↦ .bind (composed_operandFitting _) fun _ ↦
    .bind (composed_operandFitting _) fun _ ↦ .pure _

theorem opening_stringLiteral (content : String) : Opening W fun _ ↦ stringLiteral content :=
  .behind (.step (.intern content)) fun _ ↦ .first (.emit rfl) fun _ ↦
    .bind (.emitNumber _) fun _ ↦ .pure _

theorem opening_integerLiteral (value : Int64) : Opening W fun _ ↦ integerLiteral value :=
  .ite (.first (.emit rfl) fun _ ↦ .bind (.emitWide _) fun _ ↦ .pure _)
    (.first (.emit rfl) fun _ ↦ .bind (.emitWord _) fun _ ↦ .pure _)

/-! ## Expressions -/

/-- Every construct but a declaration and a closure writes a word first. -/
theorem opening_construct (token : Token) {symbol : Symbol}
    (h : Construct.ofSymbol symbol ≠ .blockOpen) (hd : Construct.ofSymbol symbol ≠ .declare)
    (hw : W (Construct.ofSymbol symbol)) (hint : Option Ty) :
    Opening W fun r ↦ construct Γ r token symbol hint := by
  unfold construct
  cases hc : Construct.ofSymbol symbol with
  | declare => exact absurd hc hd
  | assign => exact .assign Γ (hc ▸ hw)
  | declareFrozen => exact .declareFrozen Γ (hc ▸ hw)
  | increment => exact .stepVariable Γ _ (.inl rfl) rfl (hc ▸ hw)
  | decrement => exact .stepVariable Γ _ (.inr rfl) rfl (hc ▸ hw)
  | concatenate => exact opening_concatenate
  | list => exact opening_list hint
  | dictionary => exact opening_dictionary hint
  | ifBranch => exact opening_ifChain (hc ▸ hw)
  | repeatWhile => exact opening_repeatWhile
  | forIn => exact .forIn Γ _ (hc ▸ hw) composed_conditionalBlock
  | returning => exact opening_returnValue
  | selfReference => exact opening_selfReference
  | enumValue => exact opening_enumValue
  | instantiate => exact opening_instantiate
  | nothingness => exact .first (.emit rfl) fun _ ↦ .pure _
  | isNothingness => exact opening_isNothingness
  | identical => exact opening_identical
  | superInitializer => exact opening_superInitializer
  | cast => exact opening_cast
  | unwrap => exact opening_unwrap
  | optionalChain => exact opening_optionalChain
  | classMethod => exact opening_callClassMethod
  | captureMethod => exact opening_captureMethod
  | invoke => exact opening_invoke
  | superMethod => exact opening_callSuperMethod
  | method method => exact opening_call method
  | blockOpen => exact absurd hc h
  | elseIfBranch | elseBranch | blockClose | collectionEnd | dynamicClass => exact .throw _

/-- **Every expression but a declaration and a closure writes a word first.** -/
theorem opening_expressionStep {token : Token} (h : token.asksFor .blockOpen = false)
    (hd : token.asksFor .declare = false) (hw : ∀ c, token.construct? = some c → W c)
    (hint : Option Ty) : Opening W fun r ↦ expressionStep r Γ token hint := by
  refine .behind (.step (.setLine _)) fun _ ↦ ?_
  split
  · exact opening_stringLiteral _
  · exact .first (.emit rfl) fun _ ↦ .pure _
  · exact opening_integerLiteral _
  · exact .first (.emit rfl) fun _ ↦ .bind (.emitWide _) fun _ ↦ .pure _
  · exact .first (.emit rfl) fun _ ↦ .bind (.emitWord _) fun _ ↦ .pure _
  · exact .readVariable _ _
  · exact .throw _
  · exact .throw _
  · exact .throw _
  · next symbol hl =>
    have hconstruct : token.construct? = some (Construct.ofSymbol symbol) := by
      rw [Token.construct?, Token.identifier?, hl, Option.map_some]
    have hasks {asked : Construct} (ha : token.asksFor asked = false) :
        Construct.ofSymbol symbol ≠ asked := by
      rintro rfl
      exact absurd (beq_iff_eq.mpr hconstruct) (Bool.eq_false_iff.mp ha)
    exact .optional (.step (.modifyFrame fun _ ↦ ⟨rfl, rfl⟩))
      (opening_construct token (hasks h) (hasks hd) (hw _ hconstruct) hint)

/-- An expression that asks for a construct is analysed as that construct. -/
theorem expressionStep_of_asksFor {token : Token} {asked : Construct} (h : token.asksFor asked)
    (hasked : asked ≠ .returning) (rec : Recursion) (hint : Option Ty) :
    expressionStep rec Γ token hint = (do
      setLine token.span.line
      modifyFrame ({ · with hasEffect := true })
      construct Γ rec token asked.spelling hint) := by
  have hconstruct : Construct.ofSymbol asked.spelling ≠ .returning := by
    obtain ⟨symbol, -, rfl⟩ := Token.asksFor_iff.mp h
    rwa [Construct.spelling_ofSymbol]
  unfold expressionStep
  rw [Token.lexeme_of_asksFor h]
  dsimp only
  rw [if_pos hconstruct]

/-- **Every expression but a closure is composed.** -/
theorem composed_expressionStep {token : Token} (h : token.asksFor .blockOpen = false)
    (hw : ∀ c, token.construct? = some c → W c) (hint : Option Ty) :
    Composed W fun r ↦ expressionStep r Γ token hint := by
  by_cases hd : token.asksFor .declare
  · simp only [expressionStep_of_asksFor hd nofun]
    exact .bind (.step (.setLine _)) fun _ ↦
      .bind (.step (.modifyFrame fun _ ↦ ⟨rfl, rfl⟩)) fun _ ↦
      .declareVariable Γ (hw _ (beq_iff_eq.mp hd))
  · exact (opening_expressionStep h (eq_false_of_ne_true hd) hw hint).composed

end

/-! ## Where constructs begin -/

namespace Query

/-- The state in which the construct that an expression asks for begins, unless it is a return. What
is written from there on belongs to the line of the first token. -/
def begun (q : Query) : State :=
  { q.state with
    assembler := q.state.assembler.atLine q.token.span.line
    frame := { q.state.frame with hasEffect := true } }

/-- An expression that asks for a construct is analysed as that construct. -/
theorem answer_of_asksFor {n : Nat} {q : Query} {asked : Construct} (h : q.token.asksFor asked)
    (hasked : asked ≠ .returning) :
    (Analysis.expression (n + 1)).answer q = Analysis.construct q.setting (Analysis.expression n)
      q.token asked.spelling q.hint q.begun := by
  have hstep := congrFun (expressionStep_of_asksFor (Γ := q.setting) h hasked
    (Analysis.expression n) q.hint) q.state
  exact hstep.trans ((Analysis.bind_of_ok rfl).trans (Analysis.bind_of_ok rfl))

end Query

end Pictograph
