import Pictograph.Proofs.Analysis.Freezing
import Pictograph.Proofs.Analysis.Variables
import Pictograph.Proofs.Catalogue.CompatibilityOrder

/-!
# Constructs in two bodies that differ in one declaration

Every construct of the second body follows that of the first. Where the first body assigns a value
to the variable that it introduces there, the second one declares it frozen. Where the first body
writes to that variable again, the second one stops.

## Main results

* `Composed.follows`: whatever is put together from steps and expressions is followed, unless it
  writes to variables that are there already.
* `Follows.closure`: so are closures.
* `Replacement.ends_introduction`: the declaration does what the assignment did.
-/

namespace Pictograph

open Analysis

/-! ## Reading the first token of an expression -/

namespace Analysis

variable {α : Type} {s s₁ : State}

theorem exists_advance_of_next {token : Token} (h : next s = .ok token s₁) :
    ∃ d, s.cursor.advance = some (token, d) ∧ s₁ = { s with cursor := d } := by
  obtain ⟨cursor, hr, rfl⟩ := reading_ok h
  unfold Reading.next at hr
  split at hr
  · next t d hadvance =>
    cases hr
    exact ⟨_, hadvance, rfl⟩
  · cases hr

theorem next_of_advance {token : Token} {d : Cursor} (h : s.cursor.advance = some (token, d)) :
    next s = .ok token { s with cursor := d } := by
  rw [next, reading, Reading.next, h]

theorem remaining_of_advance {c d : Cursor} {token : Token} (h : c.advance = some (token, d)) :
    c.remaining = d.remaining + 1 :=
  congrArg List.length (Cursor.advance_eq_some h).1

theorem accepts_of_advance {construct : Construct} {token : Token} {d : Cursor}
    (h : s.cursor.advance = some (token, d)) : accepts construct s
      = if token.asksFor construct then .ok true { s with cursor := d } else .ok false s := by
  change EStateM.map _ (reading (Reading.accept _)) s = _
  rw [EStateM.map, reading, Reading.accept, h]
  cases hasks : token.asksFor construct <;> simp [hasks]

theorem accepts_of_advance_eq_none {construct : Construct} (h : s.cursor.advance = none) :
    accepts construct s = .ok false s := by
  change EStateM.map _ (reading (Reading.accept _)) s = _
  rw [EStateM.map, reading, Reading.accept, h]
  rfl

/-- The name of a variable is that of the next token. -/
theorem exists_advance_of_variableName {x : String} {p : Span}
    (h : variableName s = .ok (x, p) s₁) :
    ∃ t d, s.cursor.advance = some (t, d) ∧ t.reference? = some x ∧ t.span = p
      ∧ s₁ = { s with cursor := d } := by
  obtain ⟨cursor, hr, rfl⟩ := reading_ok h
  change EStateM.bind (EStateM.bind Reading.next _) _ s.cursor = _ at hr
  simp only [EStateM.bind, Reading.next] at hr
  cases hadvance : s.cursor.advance with
  | none =>
    rw [hadvance] at hr
    cases hr
  | some next =>
    obtain ⟨⟨lexeme, span⟩, d⟩ := next
    rw [hadvance] at hr
    cases lexeme with
    | reference x' =>
      cases hr
      exact ⟨_, _, rfl, rfl, rfl, rfl⟩
    | _ => cases hr

theorem variableName_of_advance {x : String} {t : Token} {d : Cursor}
    (h : s.cursor.advance = some (t, d)) (hx : t.reference? = some x) :
    variableName s = .ok (x, t.span) { s with cursor := d } := by
  have hname : Reading.variableName s.cursor = .ok (x, t.span) d := by
    obtain ⟨lexeme, span⟩ := t
    cases lexeme with
    | reference x' =>
      cases hx
      change EStateM.bind (EStateM.bind Reading.next _) _ s.cursor = _
      simp only [EStateM.bind, Reading.next, h]
      rfl
    | _ => cases hx
  rw [variableName, reading, hname]

end Analysis

/-- What is asked for behind a token is behind it. -/
theorem Traverses.remaining_lt_of_asks {α β : Type} {rec : Recursion} {x : Analysis α}
    {f : Recursion → α → Analysis β}
    (hreads : ∀ s a s₁, x s = .ok a s₁ → s₁.cursor.remaining < s.cursor.remaining)
    (hf : ∀ a, Traverses State.Onward rec fun r ↦ f r a) {s : State} {q : Query}
    (hq : Asks rec (fun r ↦ x >>= f r) s q) : q.state.cursor.remaining < s.cursor.remaining := by
  obtain ⟨a, s₁, ha, hq⟩ := hq.of_const_bind
  exact Nat.lt_of_le_of_lt ((hf a).through hq).1.remaining_le (hreads s a s₁ ha)

theorem Analysis.remaining_lt_of_next {s s₁ : State} {token : Token} (h : next s = .ok token s₁) :
    s₁.cursor.remaining < s.cursor.remaining := by
  obtain ⟨d, hadvance, rfl⟩ := exists_advance_of_next h
  rw [remaining_of_advance hadvance]
  exact Nat.lt_succ_self _

theorem Analysis.remaining_lt_of_variableName {s s₁ : State} {x : String × Span}
    (h : variableName s = .ok x s₁) : s₁.cursor.remaining < s.cursor.remaining := by
  obtain ⟨t, d, hadvance, -, -, rfl⟩ := exists_advance_of_variableName h
  rw [remaining_of_advance hadvance]
  exact Nat.lt_succ_self _

/-- An expression that no token stops is asked for behind its first token. -/
theorem asks_expressionUnless {rec : Recursion} {Γ : Setting} {stops : Token → Bool}
    {before : Frame → Frame} {hint : Option Ty} {s s₁ : State} {token : Token} {q : Query}
    (hrec : rec.GoesOnward) (hnext : next s = .ok token s₁) (hgo : stops token = false) :
    Asks rec (fun r ↦ expressionUnless Γ r stops before hint) s q
      ↔ q = ⟨Γ, token, hint, { s₁ with frame := before s₁.frame }⟩ := by
  constructor
  · intro hq
    obtain ⟨token', s', hnext', hq⟩ := hq.of_const_bind
    cases hnext.symm.trans hnext'
    simp only [hgo, Bool.false_eq_true, if_false] at hq
    obtain ⟨_, s', hframe, hq⟩ := hq.of_const_bind
    cases hframe
    exact ((Traverses.call hrec).asks_of_bind_const hq).eq_of_call
  · rintro rfl
    refine .behind hnext ?_
    simp only [hgo, Bool.false_eq_true, if_false]
    exact .behind rfl (.first .call)

/-- An assignment is no truth value. -/
theorem Replacement.not_ok_operandFitting (ρ : Replacement) {Γ : Setting} {s s₁ : State}
    {token : Token} {d : Cursor} {t : Ty} (hadvance : s.cursor.advance = some (token, d))
    (hassign : token.asksFor .assign) :
    operandFitting Γ ρ.expressions .boolean s ≠ .ok t s₁ := by
  intro hrun
  rw [operandFitting, bind_of_ok (next_of_advance hadvance)] at hrun
  obtain ⟨found, s₂, hcall, hrun⟩ := bind_ok hrun
  obtain ⟨_, s₃, hfits, -⟩ := bind_ok hrun
  have hfound := ρ.nothingness (q := ⟨_, token, _, _⟩) hassign hcall
  subst hfound
  rcases Catalogue.fits_iff.mp (require_ok hfits).1 with h | ⟨-, h⟩ | ⟨h, -, -⟩
  · cases h
  · rcases h with h | h <;> cases h
  · exact h rfl

/-- The value that a condition binds. -/
def Analysis.bindCondition (Γ : Setting) (rec : Recursion) : Analysis Unit := do
  let (x, span) ← variableName
  requireUndeclared x span
  emit .conditionalBind
  let slot ← newSlot Γ span
  emitNumber slot
  let valueSpan ← here
  let t ← operand Γ rec
  require t.isOptional
    (.typeMismatch "condition assignment can only be used with optionals") valueSpan
  declare (Variable.ready { name := x, type := t.unwrapped, slot, span }).frozen

/-- A condition behind the mark of a binding, which may be there. -/
def Analysis.conditionBehind (Γ : Setting) (binds : Bool) (rec : Recursion) : Analysis Unit :=
  if binds then bindCondition Γ rec
  else do
    let _ ← operandFitting Γ rec .boolean

theorem Analysis.condition_eq (Γ : Setting) (rec : Recursion) :
    condition Γ rec = accepts .declareFrozen >>= fun binds ↦ conditionBehind Γ binds rec := rfl

/-- The mark of a binding is taken on both sides or on neither. An assignment does not become one,
because it has no value and is no condition. -/
theorem Replacement.exists_accepts_declareFrozen {ρ : Replacement} {Γ : Setting}
    {s s' s₁ t : State} {binds : Bool} {u : Unit} (hs : s.Freezes ρ.origin ρ.behind s')
    (hbinds : accepts .declareFrozen s = .ok binds s₁)
    (hbehind : conditionBehind Γ binds ρ.expressions s₁ = .ok u t) :
    ∃ s₁', accepts .declareFrozen s' = .ok binds s₁' ∧ s₁.Freezes ρ.origin ρ.behind s₁' := by
  cases hadvance : s.cursor.advance with
  | none =>
    rw [accepts_of_advance_eq_none hadvance] at hbinds
    cases hbinds
    exact ⟨s', accepts_of_advance_eq_none (hs.cursor.advance_eq_none hadvance), hs⟩
  | some read =>
    obtain ⟨token, d⟩ := read
    obtain ⟨d', hadvance', hd⟩ := hs.cursor.advance hadvance
    rw [accepts_of_advance hadvance] at hbinds
    have hassign : ¬ token.asksFor .assign := by
      intro hassign
      have hfrozen : token.asksFor .declareFrozen = false := by
        rw [Bool.eq_false_iff]
        intro hfrozen
        cases (beq_iff_eq.mp hassign).symm.trans (beq_iff_eq.mp hfrozen)
      rw [hfrozen, if_neg Bool.false_ne_true] at hbinds
      cases hbinds
      obtain ⟨found, s₂, hoperand, -⟩ := bind_ok hbehind
      exact ρ.not_ok_operandFitting hadvance hassign hoperand
    rw [Token.ite_freezing_eq_self fun h ↦ hassign h.2] at hadvance'
    rw [accepts_of_advance hadvance']
    cases hfrozen : token.asksFor .declareFrozen with
    | true =>
      rw [hfrozen, if_pos rfl] at hbinds
      cases hbinds
      exact ⟨{ s' with cursor := d' }, rfl, { hs with cursor := hd }⟩
    | false =>
      rw [hfrozen, if_neg Bool.false_ne_true] at hbinds
      cases hbinds
      exact ⟨s', rfl, hs⟩

namespace Follows

variable {ρ : Replacement} {α β γ δ : Type} {Γ : Setting}

/-- **An expression is followed**, whether or not it starts with the token that was replaced. -/
theorem expressionUnless {stops : Token → Bool} {before : Frame → Frame} (hint : Option Ty)
    (hstops : ∀ t, t.introduces → stops t = false)
    (hbefore : Frame.Retains before) :
    Follows ρ Eq (fun r ↦ expressionUnless Γ r stops before hint)
      (Analysis.expressionUnless Γ ρ.expressions stops before hint) where
  traverses := .composed (W := fun _ ↦ False) ρ.onward (.expression Γ hint hstops hbefore)
  fetches hq := Traverses.remaining_lt_of_asks (fun _ _ _ ↦ remaining_lt_of_next)
    (fun token ↦ .ite (.pure _) (.bind (.const (GoesOnward.modifyFrame _)) fun _ ↦
      .bind (.call ρ.onward) fun _ ↦ .pure _)) hq
  ends {s s' a t} hs hrun hcovers := by
    obtain ⟨token, s₁, hnext, hrun⟩ := bind_ok hrun
    obtain ⟨d, hadvance, rfl⟩ := exists_advance_of_next hnext
    obtain ⟨d', hadvance', hd⟩ := hs.cursor.advance hadvance
    -- what the second analysis reads is of the same sort, and at the same place
    have hstop : stops (if d.remaining = ρ.behind then token.freezing else token)
        = stops token := by
      split
      · exact Token.test_freezing hstops
      · rfl
    have hspan : (if d.remaining = ρ.behind then token.freezing else token).span = token.span := by
      split
      · exact Token.freezing_span
      · rfl
    rw [Analysis.expressionUnless, bind_of_ok (next_of_advance hadvance'), hstop, hspan]
    cases hstopped : stops token with
    | true =>
      rw [hstopped, if_pos rfl] at hrun
      cases hrun
      exact .inl ⟨_, _, rfl, rfl, { hs with cursor := hd }⟩
    | false =>
      rw [hstopped, if_neg Bool.false_ne_true] at hrun
      obtain ⟨_, s₂, hframe, hrun⟩ := bind_ok hrun
      cases hframe
      obtain ⟨ty, s₃, hcall, hrun⟩ := bind_ok hrun
      cases hrun
      have hasks {q : Query} : Asks ρ.expressions
          (fun r ↦ Analysis.expressionUnless Γ r stops before hint) s q ↔ _ :=
        asks_expressionUnless ρ.onward hnext hstopped
      have hplace : d.remaining < ρ.behind ∨ ρ.behind < t.cursor.remaining
          ∨ ρ.Contains ⟨Γ, token, hint, { s with cursor := d, frame := before s.frame }⟩ := by
        rcases hcovers.place with h | h | ⟨q, hq, hcontains⟩
        · rw [remaining_of_advance hadvance] at h
          exact .inl h
        · exact .inr (.inl h)
        · exact .inr (.inr (hasks.mp hq ▸ hcontains))
      have hcursor : { s with cursor := d, frame := before s.frame }.Freezes ρ.origin ρ.behind
          { s' with cursor := d', frame := before s'.frame } :=
        { hs with cursor := hd, frame := congrArg before hs.frame }
      rw [if_neg Bool.false_ne_true, bind_of_ok (m := Analysis.modifyFrame before) rfl]
      rcases hcovers.repeats _ (hasks.mpr rfl) hcursor hcall hplace with
        ⟨_, t', hcall', rfl, ht⟩ | ⟨hwritten, p, t', herror⟩
      · exact .inl ⟨_, t', bind_of_ok hcall', rfl, ht⟩
      · exact .inr ⟨hwritten, p, t', bind_of_error herror⟩

/-! ## Operands -/

theorem rel_self {V : α → α → Prop} (h : ∀ a, V a a) (a? : Option α) : Option.Rel V a? a? := by
  cases a? with
  | none => exact .none
  | some a => exact .some (h a)

theorem require (condition : Bool) (cause : Cause) (span : Span) :
    Follows ρ Eq (fun _ ↦ require condition cause span) (Analysis.require condition cause span) :=
  .ite (.pure rfl) (.throw _)

theorem demand {V : α → β → Prop} {a? : Option α} {b? : Option β} (h : Option.Rel V a? b?)
    (cause : Cause) (span : Span) :
    Follows ρ V (fun _ ↦ demand a? cause span) (Analysis.demand b? cause span) := by
  cases h with
  | none => exact .throw _
  | some hab => exact .pure hab

theorem lift (x : Except Fault α) : Follows ρ Eq (fun _ ↦ lift x) (Analysis.lift x) := by
  cases x with
  | error fault => exact .throw fault
  | ok a => exact .pure rfl

/-- An expression and what comes behind it. -/
theorem ask {V : γ → δ → Prop} {hint : Option Ty} {go : Recursion → Ty → Span → Analysis γ}
    {go' : Ty → Span → Analysis δ}
    (hgo : ∀ t span, Follows ρ V (fun r ↦ go r t span) (go' t span)) :
    Follows ρ V (fun r ↦ do
        let token ← next
        go r (← r Γ token hint) token.span) (do
        let token ← next
        go' (← ρ.expressions Γ token hint) token.span) := by
  have hask {ε : Type} (rec : Recursion) (g : Ty → Span → Analysis ε) :
      (do
        let token ← next
        g (← rec Γ token hint) token.span)
      = Analysis.expressionUnless Γ rec (fun _ ↦ false) id hint
        >>= fun x ↦ x.2.elim (Analysis.fail .missingReturn x.1) (g · x.1) := by
    rw [Analysis.expressionUnless, bind_assoc]
    refine congrArg (next >>= ·) (funext fun token ↦ ?_)
    rw [if_neg Bool.false_ne_true]
    simp only [bind_assoc, pure_bind]
    rfl
  simp only [hask]
  refine .bind_same (.expressionUnless hint (fun _ _ ↦ rfl) fun _ ↦ ⟨rfl, rfl⟩) fun x ↦ ?_
  obtain ⟨span, t?⟩ := x
  cases t? with
  | none => exact .throw _
  | some t => exact hgo t span

theorem operand : Follows ρ Eq (fun r ↦ operand Γ r) (Analysis.operand Γ ρ.expressions) := by
  have hask : Follows ρ Eq (fun r ↦ next >>= fun token ↦ r Γ token none >>= Pure.pure)
      (next >>= fun token ↦ ρ.expressions Γ token none >>= Pure.pure) :=
    .ask fun t _ ↦ .pure rfl
  simpa only [Analysis.operand, bind_pure] using hask

theorem operandFitting (expected : Ty) : Follows ρ Eq (fun r ↦ operandFitting Γ r expected)
    (Analysis.operandFitting Γ ρ.expressions expected) := by
  have hgo (found : Ty) (span : Span) : Follows ρ Eq (fun _ ↦ (do
        Analysis.require (Γ.catalogue.fits found expected)
          (.incompatible (Γ.typeName expected) (Γ.typeName found)) span
        return found : Analysis Ty)) _ :=
    .bind_same (.require _ _ _) fun _ ↦ .pure rfl
  simp only [Analysis.operandFitting, Analysis.fitting]
  exact .ask hgo

/-! ## Variables -/

theorem emit (op : Opcode) : Follows ρ Eq (fun _ ↦ emit op) (Analysis.emit op) :=
  .assemble fun a ↦ a.preserves_opcode op

theorem emitNumber (n : Nat) : Follows ρ Eq (fun _ ↦ emitNumber n) (Analysis.emitNumber n) :=
  .assemble fun a ↦ a.preserves_word _

theorem frame : Follows ρ Eq (fun _ ↦ frame) Analysis.frame := Step.frame.follows

/-- A name refers to the same variable on both sides. -/
theorem resolve? (x : String) : Follows ρ (Option.Rel (Environment.Freezes.Found ρ.origin))
    (fun _ ↦ resolve? x) (Analysis.resolve? x) :=
  .look fun _ _ hs ↦ .pure (hs.environment.resolve? x)

theorem requireUndeclared (x : String) (span : Span) :
    Follows ρ Eq (fun _ ↦ requireUndeclared x span) (Analysis.requireUndeclared x span) := by
  refine .look fun s s' hs ↦ ?_
  rw [hs.environment.current.contains_eq]
  exact .require _ _ _

theorem requireSlot (slot : Nat) (span : Span) :
    Follows ρ Eq (fun _ ↦ requireSlot Γ slot span) (Analysis.requireSlot Γ slot span) :=
  .require _ _ _

theorem newSlot (span : Span) :
    Follows ρ Eq (fun _ ↦ newSlot Γ span) (Analysis.newSlot Γ span) :=
  .bind_same .frame fun _ ↦ .bind_same (.requireSlot _ _) fun _ ↦
    .bind_same (.modifyFrame _) fun _ ↦ .pure rfl

theorem declare {v v' : Variable} (hv : v.Freezes ρ.origin v') :
    Follows ρ Eq (fun _ ↦ declare v) (Analysis.declare v') :=
  .step (.declare v) fun _ s' _ _ hs hrun ↦ by
    obtain ⟨e, he, rfl⟩ := declare_ok hrun
    obtain ⟨e', he', hee'⟩ := hs.environment.declare hv he
    refine ⟨(), { s' with environment := e' }, ?_, rfl, { hs with environment := hee' }⟩
    rw [Analysis.declare, he']

theorem emitAccess (storage : Storage) (action : Access) (slot : Nat) :
    Follows ρ Eq (fun _ ↦ emitAccess storage action slot)
      (Analysis.emitAccess storage action slot) :=
  .bind_same (.emit _) fun _ ↦ .ite (.bind_same (.modifyFrame _) fun _ ↦ .emitNumber _)
    (.emitNumber _)

theorem readVariable (x : String) (span : Span) :
    Follows ρ Eq (fun _ ↦ readVariable x span) (Analysis.readVariable x span) := by
  refine .bind (.resolve? x) (fun y? ↦ ⟨y?, rel_self .refl y?⟩) fun y? y?' hy ↦ ?_
  refine .bind (.demand hy _ _) (fun y ↦ ⟨y, .refl y⟩) ?_
  rintro ⟨storage, v⟩ ⟨_, v'⟩ ⟨rfl, hv, -⟩
  dsimp only
  rw [hv.requireReady_eq, hv.slot_eq, hv.type_eq]
  exact .bind_same (.lift _) fun _ ↦ .bind_same (.emitAccess _ _ _) fun _ ↦ .pure rfl

theorem declareVariable : Follows ρ Eq (fun _ ↦ declareVariable Γ) (Analysis.declareVariable Γ) :=
  .bind_same (.reading .variableName) fun _ ↦ .bind_same (.requireUndeclared _ _) fun _ ↦
    .bind_same (.reading (Γ.catalogue.composed_annotated _ _ _)) fun _ ↦
    .bind_same (.newSlot _) fun _ ↦ .bind_same (.declare (.refl _)) fun _ ↦ .pure rfl

/-- A new variable gets its value, and is declared with it. -/
theorem introduce {x : String} {span : Span} {f g : Variable → Variable}
    (h : ∀ type slot, (f (.ready { name := x, type, slot, span })).Freezes ρ.origin
      (g (.ready { name := x, type, slot, span }))) :
    Follows ρ Eq (fun r ↦ (do
        Analysis.declare (f (← storeNew Γ r x span))
        return .nothingness : Analysis Ty)) (do
        Analysis.declare (g (← storeNew Γ ρ.expressions x span))
        return .nothingness) := by
  simp only [storeNew, bind_assoc, pure_bind]
  exact .bind_same (.emit _) fun _ ↦ .bind_same (.newSlot _) fun _ ↦
    .bind_same (.emitNumber _) fun _ ↦ .bind_same .operand fun _ ↦
    .bind_same (.declare (h _ _)) fun _ ↦ .pure rfl

theorem declareFrozen :
    Follows ρ Eq (fun r ↦ declareFrozen Γ r) (Analysis.declareFrozen Γ ρ.expressions) :=
  .bind_same (.reading .variableName) fun _ ↦ .bind_same (.requireUndeclared _ _) fun _ ↦
    .introduce fun _ _ ↦ .refl _

/-! ## Branches and loops -/

theorem inScope {m : Recursion → Analysis α} {m' : Analysis α} (h : Follows ρ Eq m m') :
    Follows ρ Eq (fun r ↦ inScope Γ (m r)) (Analysis.inScope Γ m') := by
  simp only [Composed.inScope_eq]
  exact .bind_same Step.enterScope.follows fun _ ↦ .bind_same h fun _ ↦
    .bind_same (Step.leaveScope Γ).follows fun _ ↦ .pure rfl

theorem inBlock {m : Recursion → Analysis Unit} {m' : Analysis Unit} (h : Follows ρ Eq m m')
    (withFields : Bool) :
    Follows ρ Eq (fun r ↦ inBlock withFields (m r)) (Analysis.inBlock withFields m') := by
  refine .bind_same (.bind_same ?_ fun _ ↦ .modifyFrame _) fun _ ↦ .bind_same h fun _ ↦
    .bind_same ?_ fun _ ↦ .bind_same (.modifyFrame _) fun _ ↦ .pure rfl
  · refine .look fun s s' hs ↦ ?_
    rw [hs.environment.canShift_eq]
    exact .ite (.bind_same (.throw _) fun _ ↦ .modifyEnvironment fun _ _ he ↦ he.shift _ _)
      (.modifyEnvironment fun _ _ he ↦ he.shift _ _)
  · refine .look fun s s' hs ↦ .bind_same (.modifyEnvironment fun _ _ _ ↦ ?_) fun _ ↦ .pure ?_
    · exact hs.environment.shift _ _
    · exact (hs.environment.settledHere_eq withFields).symm

theorem bindCondition :
    Follows ρ Eq (fun r ↦ Analysis.bindCondition Γ r) (Analysis.bindCondition Γ ρ.expressions) :=
  .bind_same (.reading .variableName) fun _ ↦ .bind_same (.requireUndeclared _ _) fun _ ↦
    .bind_same (.emit _) fun _ ↦ .bind_same (.newSlot _) fun _ ↦
    .bind_same (.emitNumber _) fun _ ↦ .bind_same Step.here.follows fun _ ↦
    .bind_same .operand fun _ ↦ .bind_same (.require _ _ _) fun _ ↦ .declare (.refl _)

theorem condition : Follows ρ Eq (fun r ↦ condition Γ r) (Analysis.condition Γ ρ.expressions) := by
  have hbehind (binds : Bool) : Follows ρ Eq (fun r ↦ conditionBehind Γ binds r)
      (conditionBehind Γ binds ρ.expressions) :=
    .ite .bindCondition (.bind_same (.operandFitting _) fun _ ↦ .pure rfl)
  have haccepts : Analysis.GoesOnward (accepts .declareFrozen) := .accepts _
  refine ⟨.condition ρ.onward, fun hq ↦ ?_, fun {s s' a t} hs hrun hcovers ↦ ?_⟩
  · obtain ⟨binds, s₁, hbinds, hq⟩ := hq.of_const_bind
    exact Nat.lt_of_lt_of_le ((hbehind binds).fetches hq) (haccepts _ _ _ hbinds).remaining_le
  · obtain ⟨binds, s₁, hbinds, hrest⟩ := bind_ok hrun
    obtain ⟨s₁', hbinds', hs₁⟩ := Replacement.exists_accepts_declareFrozen hs hbinds hrest
    have hends := (hbehind binds).ends hs₁ hrest (hcovers.behind haccepts hbinds)
    rw [condition_eq, bind_of_ok hbinds']
    exact hends

theorem forIn (span : Span)
    (h : Follows ρ Eq (fun r ↦ conditionalBlock Γ r) (conditionalBlock Γ ρ.expressions)) :
    Follows ρ Eq (fun r ↦ forIn Γ r span) (Analysis.forIn Γ ρ.expressions span) := by
  refine .bind_same Step.reserve.follows fun _ ↦ .bind_same (.reading .variableName) fun _ ↦
    .bind_same (.inScope ?_) fun _ ↦ .pure rfl
  exact .bind_same (.newSlot _) fun _ ↦ .bind_same (.emitNumber _) fun _ ↦
    .bind_same (.newSlot _) fun _ ↦ .bind_same (.emitNumber _) fun _ ↦
    .bind_same (.operandFitting _) fun _ ↦
    .bind_same (.demand (rel_self (fun _ ↦ rfl) _) _ _) fun _ ↦
    .bind_same (.filling Assembler.preserves_fillOpcode?) fun _ ↦
    .bind_same (.declare (.refl _)) fun _ ↦ h

end Follows

/-- **Whatever is put together from steps and expressions is followed**, unless it writes to
variables that are there already. -/
theorem Composed.follows {ρ : Replacement} {α : Type} {m : Recursion → Analysis α}
    (h : Composed (fun c ↦ c.writes = false) m) : Follows ρ Eq m (m ρ.expressions) := by
  induction h with
  | step h => exact h.follows
  | bind _ _ ih ih' => exact ih.bind_same ih'
  | expression Γ hint hstops hbefore => exact .expressionUnless hint hstops hbefore
  | inBlock withFields _ ih => exact ih.inBlock withFields
  | readVariable x span => exact .readVariable x span
  | declareVariable Γ => exact .declareVariable
  | declareFrozen Γ => exact .declareFrozen
  | condition Γ => exact .condition
  | forIn Γ span _ _ ih => exact .forIn span ih
  | stepVariable _ _ _ hc hw => exact nomatch hc.symm.trans hw
  | assign _ hw => exact nomatch hw

/-! ## Bodies and closures -/

namespace Follows

variable {ρ : Replacement} {α β : Type} {Γ : Setting}

/-- Which variables are recommended makes no difference to what is analysed. -/
theorem recommendFrozen (candidates candidates' : List Variable) :
    Follows ρ Eq (fun _ ↦ recommendFrozen Γ candidates)
      (Analysis.recommendFrozen Γ candidates') :=
  .step (.recommendFrozen _) fun _ s' _ _ hs hrun ↦ by
    rw [recommendFrozen_eq] at hrun
    cases hrun
    exact ⟨(), _, recommendFrozen_eq _ _ _, rfl, { hs with }⟩

theorem declareCaptured {v v' : Variable} (span : Span) (first : Nat)
    (hv : v.Freezes ρ.origin v') :
    Follows ρ Eq (fun _ ↦ declareCaptured Γ span first v)
      (Analysis.declareCaptured Γ span first v') := by
  refine .look fun s s' hs ↦ ?_
  have hslot := hv.withSlot (first + v.slot)
  obtain ⟨isFrozen, rfl, -⟩ := hv
  rw [hs.environment.current.contains_eq]
  exact .ite (.bind_same (.requireSlot _ _) fun _ ↦ .declare hslot) (.pure rfl)

theorem takeOver {captured captured' : List Variable} (span : Span) (outerSlots : Nat)
    (hcaptured : List.Forall₂ (Variable.Freezes ρ.origin) captured captured') :
    Follows ρ Eq (fun _ ↦ takeOver Γ span captured outerSlots)
      (Analysis.takeOver Γ span captured' outerSlots) :=
  .bind_same .frame fun _ ↦ .ite (.bind_same (.forM hcaptured fun _ _ hv ↦
    .declareCaptured _ _ hv) fun _ ↦ .bind_same (.modifyFrame _) fun _ ↦ .pure rfl) (.pure rfl)

theorem leaveBody (first outerSlots : Nat) (span : Span) :
    Follows ρ Eq (fun _ ↦ leaveBody Γ first outerSlots span)
      (Analysis.leaveBody Γ first outerSlots span) :=
  .look fun _ _ _ ↦ .bind_same (.recommendFrozen _ _) fun _ ↦ .bind_same .frame fun _ ↦
    .bind_same (.require _ _ _) fun _ ↦ .bind_same (Step.requireComplete _ _).follows fun _ ↦
    .bind_same .frame fun _ ↦ .bind_same (.require _ _ _) fun _ ↦ .bind_same .frame fun _ ↦
    .pure rfl

theorem body {captured captured' : List Variable} (arguments : List Argument) (outerSlots : Nat)
    (hcaptured : List.Forall₂ (Variable.Freezes ρ.origin) captured captured') :
    Follows ρ Eq (fun r ↦ body Γ r arguments captured outerSlots)
      (Analysis.body Γ ρ.expressions arguments captured' outerSlots) := by
  refine .bind_same Step.here.follows fun span ↦ .bind_same ?_ fun _ ↦
    .bind_same (.takeOver _ _ hcaptured) fun _ ↦
    .bind_same composed_bodyStatements.follows fun _ ↦ .leaveBody _ _ _
  refine .forM (List.forall₂_same.mpr fun _ _ ↦ rfl) ?_
  rintro argument _ rfl
  exact .bind_same (.newSlot _) fun _ ↦ .declare (.refl _)

/-- The variables around a frame are the same on both sides when it is left. -/
theorem inFrame {m : Recursion → Analysis α} {m' : Analysis α} (h : Follows ρ Eq m m') :
    Follows ρ Eq (fun r ↦ inFrame (m r)) (Analysis.inFrame m') := by
  simp only [inFrame_eq_bind]
  refine .look fun outer outer' houter ↦ .bind_same (.modify (fun _ ↦ ⟨rfl, rfl⟩) ?_) fun _ ↦
    .bind_same h fun _ ↦ .bind_same (.modify (fun _ ↦ ⟨rfl, rfl⟩) ?_) fun _ ↦ .pure rfl
  · intro s s' hs
    refine { hs with environment := ?_, frame := rfl }
    rw [hs.environment.fields]
    exact .refl _
  · intro s s' hs
    exact { hs with
      environment := ⟨houter.environment.current, houter.environment.outer, hs.environment.fields⟩
      frame := houter.frame }

/-- **A closure is followed.** It takes over the same variables on both sides, frozen or not. -/
theorem closure : Follows ρ Eq (fun r ↦ closure Γ r) (Analysis.closure Γ ρ.expressions) := by
  refine .bind_same composed_closureArguments.follows fun _ ↦
    .bind_same composed_closureResult.follows fun _ ↦ .bind_same (.emit _) fun _ ↦
    .bind_same Step.reserve.follows fun _ ↦ .bind_same Step.reserveCount.follows fun _ ↦
    .look fun s s' hs ↦ .bind_same .frame fun _ ↦
    .bind_same (.inFrame (.body _ _ hs.environment.visible)) fun _ ↦
    .bind_same (Step.fillCount _).follows fun _ ↦ ?_
  refine .ite (.bind_same (.modifyFrame _) fun _ ↦ .bind_same (Step.emitWord _).follows fun _ ↦ ?_)
    (.bind_same (Step.emitWord _).follows fun _ ↦ ?_)
  all_goals
    exact .bind_same (.emitNumber _) fun _ ↦ .bind_same (Step.fill _ _).follows fun _ ↦ .pure rfl

/-- Every expression that writes to no variable is followed. -/
theorem expressionStep {token : Token} (hint : Option Ty)
    (h : token.construct?.any (·.writes) = false) :
    Follows ρ Eq (fun r ↦ expressionStep r Γ token hint)
      (Analysis.expressionStep ρ.expressions Γ token hint) := by
  have hw (c : Construct) (hc : token.construct? = some c) : c.writes = false := by
    rwa [hc, Option.any_some] at h
  cases hclosure : token.asksFor .blockOpen with
  | false => exact (composed_expressionStep hclosure hw hint).follows
  | true =>
    simp only [expressionStep_of_asksFor hclosure nofun]
    exact .bind_same (Step.setLine _).follows fun _ ↦ .bind_same (.modifyFrame _) fun _ ↦ .closure

end Follows

end Pictograph
