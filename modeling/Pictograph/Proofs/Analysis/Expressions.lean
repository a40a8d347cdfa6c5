import Pictograph.Proofs.Analysis.Bodies
import Pictograph.Proofs.Analysis.Passage
import Pictograph.Proofs.Analysis.Straight

/-!
# Expressions

Every expression that is analysed emits by the rules. What the rules leave open about the places of
a body is read off the expressions that an analysis gets to: which variable is read at an offset,
which assignment counts for another slot than the one it writes, from where to where an expression
has its code, how many slots the frame of a closure has.

An analysis depends on the expressions that it asks for alone. So the rules hold of its code with
the expressions that it gets to as the only ones there are.

## Main definitions

* `Answered`: an analysis gets to an expression, and the expression is accepted.
* `ReadsAt`, `StraysAt`, `HasCode`, `FramesAt`, `CalleeAt`: what expressions say about the places of
  the code.

## Main results

* `Analysis.wrote_expressionStep`: an expression emits by the rules if those inside it do.
* `Reaches.wrote`: every expression that an analysis gets to emits by the rules.
-/

namespace Pictograph

/-! ## Calls -/

/-- Whether a construct passes its arguments on to the member that it refers to, if there is one. A
captured method is not called, and an invocation calls a value. -/
def Construct.callsMember : Construct → Bool
  | invoke | captureMethod => false
  | _ => true

namespace Analysis

variable (Γ : Setting) (rec : Recursion)

/-- How many arguments the construct that a symbol asks for passes on, if it is a call: as many as
the procedure has that it refers to, or the callable that it invokes. -/
def passed? (symbol : Symbol) (span : Span) : Analysis (Option Nat) :=
  match Construct.ofSymbol symbol with
  | .invoke => (fun t ↦ some t.callArguments.length) <$> calleeOfInvocation Γ rec
  | .captureMethod => return none
  | _ => (fun l? ↦ (l?.bind (·.member? Γ.catalogue)).map (·.arguments.length))
      <$> lookup? Γ rec symbol span

variable {Γ rec} {W : Construct → Prop} {symbol : Symbol} {span : Span}

theorem composed_lookup? : Composed W fun r ↦ lookup? Γ r symbol span := by
  unfold lookup?
  cases Construct.ofSymbol symbol with
  | method method =>
    refine .bind (.step .reserve) fun _ ↦ .bind composed_operandAndSpan fun _ ↦ .pure _
  | optionalChain =>
    exact .map _ <| .bind (.emit rfl) fun _ ↦ .bind (.step .reserveCount) fun _ ↦
      .bind .name fun _ ↦ .bind composed_operand fun _ ↦ .pure _
  | classMethod =>
    exact .map _ <| .bind (.emit rfl) fun _ ↦ .bind .name fun _ ↦ .bind (.annotated Γ _) fun _ ↦
      .pure _
  | superMethod =>
    exact .map _ <| .bind .name fun _ ↦ .bind (.demand _ _ _) fun _ ↦ .pure _
  | captureMethod =>
    exact .map _ <| .bind .name fun _ ↦ .bind (.emit rfl) fun _ ↦
      .bind composed_operandAndSpan fun _ ↦ .pure _
  | instantiate =>
    exact .map _ <| .bind (.emit rfl) fun _ ↦ .bind (.annotated Γ _) fun _ ↦
      .bind (.demand _ _ _) fun _ ↦ .bind (.emitWord _) fun _ ↦ .bind .name fun _ ↦ .pure _
  | superInitializer =>
    exact .map _ <| .bind (.demand _ _ _) fun _ ↦ .bind (.emit rfl) fun _ ↦
      .bind (.emitNumber _) fun _ ↦ .bind .name fun _ ↦ .pure _
  | _ => exact .pure _

theorem composed_passed? : Composed W fun r ↦ passed? Γ r symbol span := by
  unfold passed?
  split
  · exact .map _ <| .bind (.emit rfl) fun _ ↦ .bind composed_operandAndSpan fun _ ↦ .pure _
  · exact .pure _
  · exact .map _ composed_lookup?

/-- A construct that refers to a procedure passes on its arguments, if it is a call. -/
theorem passed?_of_refers {s : State} {count : Nat}
    (hcalls : (Construct.ofSymbol symbol).callsMember)
    (h : Refers Γ (lookup? Γ rec symbol span) s count) :
    ∃ s₁, passed? Γ rec symbol span s = .ok (some count) s₁ := by
  obtain ⟨l, s₁, m, hl, hm, rfl⟩ := h
  have hpassed : passed? Γ rec symbol span
      = (fun l? ↦ (l?.bind (·.member? Γ.catalogue)).map (·.arguments.length))
        <$> lookup? Γ rec symbol span := by
    unfold passed?
    cases hsymbol : Construct.ofSymbol symbol with
    | invoke | captureMethod =>
      rw [hsymbol] at hcalls
      cases hcalls
    | _ => rfl
  rw [hpassed, map_eq_pure_bind]
  refine ⟨s₁, (bind_of_ok hl).trans ?_⟩
  rw [Option.bind_some, hm]
  rfl

end Analysis

/-! ## Places -/

/-- An analysis of expressions with at most `fuel` levels of nesting gets to a query, and it is
answered in the state `s'`. -/
def Answered {α : Type} (m : Recursion → Analysis α) (fuel : Nat) (s : State) (q : Query)
    (s' : State) : Prop :=
  ∃ n t, Reaches m fuel s n q ∧ (Analysis.expression n).answer q = .ok t s'

/-- The expression uses the value of a variable: it is the name, or an increment or a decrement. -/
def Query.Reads (q : Query) (x : String) : Prop :=
  q.token.lexeme = .reference x
    ∨ ∃ symbol span cursor, q.token.lexeme = .identifier symbol
      ∧ (Construct.ofSymbol symbol = .increment ∨ Construct.ofSymbol symbol = .decrement)
      ∧ Reading.variableName q.state.cursor = .ok (x, span) cursor

/-- The expression is an assignment to a name. -/
def Query.Assigns (q : Query) (x : String) : Prop :=
  ∃ symbol span cursor, q.token.lexeme = .identifier symbol
    ∧ Construct.ofSymbol symbol = .assign
    ∧ Reading.variableName q.state.cursor = .ok (x, span) cursor

/-- The expression is a closure, whose type says what it returns. -/
def Query.Returns (q : Query) (result : Ty) : Prop :=
  q.token.asksFor .blockOpen ∧ ∃ n types s',
    (Analysis.expression n).answer q = .ok (.callable result types) s'

/-- The expression is a closure with so many arguments. -/
def Query.Takes (q : Query) (arguments : Nat) : Prop :=
  q.token.asksFor .blockOpen ∧ ∃ n result types s',
    (Analysis.expression n).answer q = .ok (.callable result types) s' ∧ types.length = arguments

/-- The expression is a closure with so many slots, and the frame around it has had so many. -/
def Query.Frames (q : Query) (slots captured : Nat) : Prop :=
  q.token.asksFor .blockOpen ∧ captured = q.state.frame.slotCount ∧ ∃ n arguments entry ending,
    Encloses q.setting (Analysis.expression n) q.begun arguments entry ending
      ∧ ending.frame.slotCount = slots

/-- The expression is a call that passes on so many arguments. -/
def Query.Passes (q : Query) (count : Nat) : Prop :=
  ∃ n symbol s₁, q.token.identifier? = some symbol
    ∧ Analysis.passed? q.setting (Analysis.expression n) symbol q.token.span q.begun
      = .ok (some count) s₁

section

variable (answered : Query → State → Prop)

/-- At an offset the value of a variable is used. -/
def ReadsAt (offset : Nat) (st : Storage) (v : Variable) : Prop :=
  ∃ q s' x, answered q s' ∧ q.state.offset = offset ∧ q.Reads x
    ∧ q.state.environment.resolve? x = some (st, v)

/-- At an offset there is an assignment to a name that refers to a variable in another slot behind
the value than in front of it. The slot is the one behind the value. -/
def StraysAt (offset : Nat) (slot : Slot) : Prop :=
  ∃ q s' x st v v', answered q s' ∧ q.state.offset = offset ∧ q.Assigns x
    ∧ q.state.environment.resolve? x = some (st, v)
    ∧ s'.environment.resolve? x = some (slot.storage, v') ∧ v'.slot = slot.id
    ∧ slot ≠ ⟨st, v.slot⟩

/-- An expression has its code between two offsets. -/
def HasCode (first last : Nat) : Prop :=
  ∃ q s', answered q s' ∧ q.state.offset = first ∧ s'.offset = last

/-- At an offset there is an assignment, or a variable is declared in the next slot that keeps its
value. -/
def StoresAt (offset : Nat) (v : Variable) : Prop :=
  ∃ q s', answered q s' ∧ q.state.offset = offset
    ∧ (q.token.asksFor .assign
      ∨ q.token.asksFor .declareFrozen ∧ v.isFrozen ∧ v.slot = q.state.frame.slotCount)

/-- At an offset there is a closure with so many arguments, and this is the context around it. -/
def CapturesAt (offset arguments : Nat) (c : Context) : Prop :=
  ∃ q s', answered q s' ∧ q.state.offset = offset ∧ q.Takes arguments ∧ q.state.context = c

/-- At an offset there is a declaration inside another expression, where something has had an
effect. -/
def GapAt (offset : Nat) : Prop :=
  ∃ q s', answered q s' ∧ q.state.offset = offset ∧ q.token.asksFor .declare
    ∧ q.state.frame.hasEffect

/-- The call at an offset passes on so many arguments. -/
def CalleeAt (offset count : Nat) : Prop :=
  ∃ q s', answered q s' ∧ q.state.offset = offset ∧ q.Passes count

/-- The closure at an offset has so many slots, and the frame around it has had so many. -/
def FramesAt (offset slots captured : Nat) : Prop :=
  ∃ q s', answered q s' ∧ q.state.offset = offset ∧ q.Frames slots captured

/-- The closure at an offset has a return type. -/
def ReturnsAt (offset : Nat) (t : Ty) : Prop :=
  ∃ q s', answered q s' ∧ q.state.offset = offset ∧ q.Returns t

/-- What expressions say about variables and closures. -/
def Pins.ofAnalysis : Pins where
  reads := ReadsAt answered
  strays := StraysAt answered
  stores := StoresAt answered
  captures := CapturesAt answered

/-- Where expressions have their code. -/
def Places.ofAnalysis : Places where
  spans := HasCode answered
  frames := FramesAt answered

/-- What expressions say about the places of the code, about its layout and about the return types
of closures. -/
def Notes.ofAnalysis : Notes where
  toPins := .ofAnalysis answered
  toPlaces := .ofAnalysis answered
  gap := GapAt answered
  callee := CalleeAt answered
  returns := ReturnsAt answered

end

/-- The steps of a closure do not change if more is answered. -/
theorem Encloses.of_within {Γ : Setting} {rec rec' : Recursion} {s entry ending : State}
    {arguments : List Argument} (hrec : rec'.GoesOnward) (hw : rec.Within rec')
    (h : Encloses Γ rec s arguments entry ending) : Encloses Γ rec' s arguments entry ending := by
  obtain ⟨h₁, h₂, hdeclare, htake, hstatements⟩ := h
  exact .intro h₁ h₂ hdeclare htake ((Traverses.composed (W := fun _ ↦ True) (hrec.of_within hw)
    composed_bodyStatements).eq_of_within hw hstatements)

namespace Analysis

variable {answered : Query → State → Prop} {rec : Recursion} {q : Query} {s s' : State} {t : Ty}
  {n : Nat}

/-- A call passes on as many arguments as are said to be passed on at its offset. -/
theorem calleeAt {symbol : Symbol} (hq : answered q s') (hw : rec.Within (expression n))
    (hsymbol : q.token.identifier? = some symbol) {s₁ : State} {count : Nat}
    (h : passed? q.setting rec symbol q.token.span q.begun = .ok (some count) s₁) :
    CalleeAt answered q.state.offset count :=
  ⟨q, s', hq, rfl, n, symbol, s₁, hsymbol, (Traverses.composed (W := fun _ ↦ True)
    ((goesOnward_expression n).of_within hw) composed_passed?).eq_of_within hw h⟩

/-- The construct that an identifier asks for emits by the rules. -/
theorem wrote_construct {symbol : Symbol} (hq : answered q s') (hw : rec.Within (expression n))
    (hanswer : (expression (n + 1)).answer q = .ok t s')
    (hlexeme : q.token.lexeme = .identifier symbol) (hk : Keeps q.state s)
    (hbegun : Construct.ofSymbol symbol ≠ .returning → s = q.begun)
    (h : Emitting (.ofAnalysis answered) rec
      (fun r ↦ construct q.setting r q.token symbol q.hint) s t s') :
    Wrote (.ofAnalysis answered) q.setting 1 q.state s' := by
  have hs : (Notes.ofAnalysis answered).spans s.offset s'.offset :=
    ⟨q, s', hq, hk.offset.symm, rfl⟩
  have hidentifier : q.token.identifier? = some symbol := by rw [Token.identifier?, hlexeme]
  have hasks {asked : Construct} (h : Construct.ofSymbol symbol = asked) : q.token.asksFor asked :=
    Token.asksFor_iff.mpr ⟨symbol, hidentifier, h⟩
  unfold construct at h
  -- a return may be the first thing that has an effect
  by_cases hreturn : Construct.ofSymbol symbol = .returning
  · simp only [hreturn] at h
    exact .behind hk (wrote_returnValue hs h)
  obtain rfl := hbegun hreturn
  have hreads (hstep : Construct.ofSymbol symbol = .increment
      ∨ Construct.ofSymbol symbol = .decrement) (x : String) (span : Span) (cursor : Cursor)
      (hx : Reading.variableName q.state.cursor = .ok (x, span) cursor) (st : Storage)
      (v : Variable) (hv : q.state.environment.resolve? x = some (st, v)) :
      (Notes.ofAnalysis answered).reads q.state.offset st v :=
    ⟨q, s', x, hq, rfl, .inr ⟨symbol, span, cursor, hlexeme, hstep, hx⟩, hv⟩
  have hpassed (hcalls : (Construct.ofSymbol symbol).callsMember) (count : Nat)
      (hrefers : Refers q.setting (lookup? q.setting rec symbol q.token.span) q.begun count) :
      CalleeAt answered q.state.offset count := by
    obtain ⟨s₁, h₁⟩ := passed?_of_refers hcalls hrefers
    exact calleeAt hq hw hidentifier h₁
  unfold lookup? at hpassed
  have hinvoke (hi : Construct.ofSymbol symbol = .invoke) (callee : Ty) (s₁ : State)
      (h₁ : calleeOfInvocation q.setting rec q.begun = .ok callee s₁) :
      CalleeAt answered q.state.offset callee.callArguments.length := by
    have hcallee : passed? q.setting rec symbol q.token.span q.begun
        = .ok (some callee.callArguments.length) s₁ := by
      simp only [passed?, hi]
      exact (bind_of_ok h₁).trans rfl
    exact calleeAt hq hw hidentifier hcallee
  generalize hconstruct : Construct.ofSymbol symbol = asked at h hreads hpassed hinvoke
  -- a declaration emits nothing
  by_cases hdeclare : asked = .declare
  · subst hdeclare
    obtain ⟨hw, he⟩ := writes_declareVariable h.const
    exact .missing (.of_keeps hk hw) (he ∘ hk.effect)
      fun he ↦ ⟨q, s', hq, rfl, hasks hconstruct, he⟩
  refine .behind hk ?_
  cases asked with
  | declare => exact absurd rfl hdeclare
  | returning => exact absurd hconstruct hreturn
  | assign =>
    refine wrote_assign hs rfl (fun v ↦ ⟨q, s', hq, rfl, .inl (hasks hconstruct)⟩)
      (fun x span cursor hx st v st' v' hv hv' ↦ ?_) h
    -- an assignment that counts for another slot is one that strays
    by_cases heq : (⟨st', v'.slot⟩ : Slot) = ⟨st, v.slot⟩
    · exact .inl heq
    · exact .inr ⟨q, s', x, st, v, v', hq, rfl, ⟨symbol, span, cursor, hlexeme, hconstruct, hx⟩,
        hv, hv', rfl, heq⟩
  | declareFrozen =>
    exact wrote_declareFrozen hs rfl
      (fun v hv hslot ↦ ⟨q, s', hq, rfl, .inr ⟨hasks hconstruct, hv, hslot⟩⟩) h
  | increment => exact wrote_stepVariable hs (.inl rfl) (hreads (.inl rfl)) h.const
  | decrement => exact wrote_stepVariable hs (.inr rfl) (hreads (.inr rfl)) h.const
  | concatenate => exact wrote_concatenate hs rfl h
  | list => exact wrote_list hs rfl h
  | dictionary => exact wrote_dictionary hs rfl h
  | ifBranch => exact wrote_ifChain hs rfl h
  | repeatWhile => exact wrote_repeatWhile hs rfl h
  | forIn => exact wrote_forIn hs rfl h
  | selfReference => exact wrote_selfReference hs h.const
  | enumValue => exact wrote_enumValue hs rfl h.const
  | instantiate => exact wrote_instantiate hs rfl (hpassed rfl) h
  | nothingness => exact wrote_nothingnessLiteral hs h.const
  | isNothingness => exact wrote_isNothingness hs rfl h
  | identical => exact wrote_identical hs rfl h
  | superInitializer => exact wrote_superInitializer hs rfl (hpassed rfl) h
  | cast => exact wrote_cast hs rfl h
  | unwrap => exact wrote_unwrap hs rfl h
  | optionalChain => exact wrote_optionalChain hs rfl (hpassed rfl) h
  | classMethod => exact wrote_callClassMethod hs rfl (hpassed rfl) h
  | captureMethod => exact wrote_captureMethod hs rfl h
  | invoke => exact wrote_invoke hs rfl (hinvoke rfl) h
  | superMethod => exact wrote_callSuperMethod hs rfl (hpassed rfl) h
  | blockOpen =>
    refine wrote_closure hs (fun arguments entry ending hframe ↦ ?_)
      (fun result arguments ht ↦ ?_) (fun result arguments ht ↦ ?_) h
    · exact ⟨q, s', hq, rfl, hasks hconstruct, rfl, n, arguments, entry, ending,
        hframe.of_within (goesOnward_expression n) hw, rfl⟩
    · subst ht
      exact ⟨q, s', hq, rfl, ⟨hasks hconstruct, n + 1, _, _, s', hanswer, rfl⟩, rfl⟩
    · subst ht
      exact ⟨q, s', hq, rfl, hasks hconstruct, n + 1, _, s', hanswer⟩
  | method method => exact wrote_call hs rfl (hpassed rfl) h
  | elseIfBranch | elseBranch | blockClose | collectionEnd | dynamicClass => cases h.const

/-- An expression emits by the rules if the expressions inside it do. -/
theorem wrote_expressionStep (hq : answered q s') (hw : rec.Within (expression n))
    (h : Emitting (.ofAnalysis answered) rec
      (fun r ↦ expressionStep r q.setting q.token q.hint) q.state t s') :
    Wrote (.ofAnalysis answered) q.setting 1 q.state s' := by
  have hanswer : (expression (n + 1)).answer q = .ok t s' :=
    (Traverses.expressionStep ((goesOnward_expression n).of_within hw) _ _ _).eq_of_within hw h.run
  obtain ⟨_, s₁, h₁, h⟩ := h.bind
  have hk := keeps_setLine h₁.const
  have henv : s₁.environment = q.state.environment := congrArg Context.environment hk.context
  have hs : (Notes.ofAnalysis answered).spans s₁.offset s'.offset :=
    ⟨q, s', hq, hk.offset.symm, rfl⟩
  generalize hlexeme : q.token.lexeme = lexeme at h
  cases lexeme with
  | string content => exact (wrote_stringLiteral hs h.const).behind hk
  | boolean value => exact (wrote_booleanLiteral hs h.const).behind hk
  | integer value => exact (wrote_integerLiteral hs h.const).behind hk
  | double bits => exact (wrote_doubleLiteral hs h.const).behind hk
  | symbol value => exact (wrote_symbolLiteral hs h.const).behind hk
  | reference x =>
    refine .behind hk (wrote_readVariable hs (fun st v hv ↦ ?_) h.const)
    rw [henv] at hv
    exact ⟨q, s', x, hq, hk.offset.symm, .inl hlexeme, hv⟩
  | comment _ | argumentsOpen | argumentsClose => cases h.const
  | identifier symbol =>
    rcases h.ite with ⟨hc, h⟩ | ⟨hc, h⟩
    · -- every construct but a return has an effect from its beginning on
      obtain ⟨_, s₂, h₂, h⟩ := h.bind
      have hbegun : s₂ = q.begun ∧ Keeps s₁ s₂ := by
        cases h₁.const
        cases h₂.const
        exact ⟨rfl, .keeps rfl rfl rfl fun _ ↦ rfl⟩
      exact wrote_construct hq hw hanswer hlexeme (hk.trans hbegun.2) (fun _ ↦ hbegun.1) h
    · exact wrote_construct hq hw hanswer hlexeme hk (fun hn ↦ absurd hn hc) h

end Analysis

/-! ## Reached expressions -/

section

variable {α : Type} {rec : Recursion} {m : Recursion → Analysis α} {fuel n : Nat} {s s' : State}
  {q : Query} {a : α} {t : Ty}

/-- A run that succeeds does so with the answers to the queries that it asks alone, and what is
known of these is known of all of its answers. -/
theorem Traverses.emitting {R : State → State → Prop} {π : Notes} (h : Traverses R rec m)
    (hrun : m rec s = .ok a s')
    (hasked : ∀ q t s₁, Asks rec m s q → rec.answer q = .ok t s₁ →
      Wrote π q.setting 1 q.state s₁) :
    Emitting π (rec.only (Asks rec m s)) m s a s' where
  run := (h.depends fun _ ↦ Recursion.answer_only).trans hrun
  answers q t s₁ hanswer :=
    have ⟨hq, hanswer⟩ := Recursion.of_answer_only hanswer
    hasked q t s₁ hq hanswer

/-- **Every expression that is reached emits by the rules.** -/
theorem Reaches.wrote (h : Reaches m fuel s n q)
    (hanswer : (Analysis.expression n).answer q = .ok t s') :
    Wrote (.ofAnalysis (Answered m fuel s)) q.setting 1 q.state s' := by
  induction n generalizing q t s' with
  | zero => cases hanswer
  | succ n ih =>
    refine Analysis.wrote_expressionStep (t := t) ⟨n + 1, t, h, hanswer⟩
      (Recursion.only_within _ _) ((q.traverses n).emitting hanswer fun q' t' s₁ hq' hanswer' ↦ ?_)
    exact ih (h.nested hq') hanswer'

end

end Pictograph
