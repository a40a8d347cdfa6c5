import Pictograph.Proofs.Analysis.PairedSteps

/-!
# The analysis of a transcribed body, construct by construct

Every construct is a sequence of steps, and the steps of a body and of its transcription correspond.
So do the constructs, then, and the expressions inside them by induction on how deep they may be
nested. Each level of nesting has read a token, which is why the depth bounds the tokens that are
left.

A variable that is assigned to is looked up first and replaced afterwards. That the replacement
corresponds on both sides depends on what was found, so these two constructs are followed from one
state to the next.

## Main definitions

* `Recursion.Agrees`: expressions are analysed alike.

## Main results

* `Analysis.agrees_construct`: every construct is analysed alike if the expressions in it are.
* `Analysis.agrees_expression`: expressions are analysed alike.
* `Analysis.agrees_body`: bodies are analysed alike.
-/

namespace Pictograph

/-- Expressions of a body and of its transcription are analysed alike, wherever fewer than `n`
tokens are left. -/
def Recursion.Agrees (τ : Transcription) (n : Nat) (rec : Recursion) : Prop :=
  ∀ Γ token token' hint, token.Alike τ token' →
    τ.analysis.Agrees n Eq (rec Γ token hint) (rec Γ token' hint)

namespace Analysis

open Comparison

variable {α β γ δ : Type} {τ : Transcription} {n : Nat} {Γ : Setting} {rec : Recursion}
  {p p' : Span}

/-! ## Names -/

/-- What follows a name may depend on it, and blame its place. -/
theorem agrees_name_bind {V : α → β → Prop} {f : Symbol × Span → Analysis α}
    {f' : Symbol × Span → Analysis β}
    (h : ∀ x p p', τ.place p p' → τ.analysis.Agrees n V (f (x, p)) (f' (x, p'))) :
    τ.analysis.Agrees n V (name >>= f) (name >>= f') := by
  refine reads_name.agrees.bind ?_
  rintro ⟨x, p⟩ ⟨_, p'⟩ ⟨rfl, hp⟩
  exact h x p p' hp

/-- What follows the name of a variable may depend on it, and blame its place. -/
theorem agrees_variableName_bind {V : α → β → Prop} {f : String × Span → Analysis α}
    {f' : String × Span → Analysis β}
    (h : ∀ x p p', τ.place p p' → τ.analysis.Agrees n V (f (x, p)) (f' (τ.name x, p'))) :
    τ.analysis.Agrees n V (variableName >>= f) (variableName >>= f') := by
  refine reads_variableName.agrees.bind ?_
  rintro ⟨x, p⟩ ⟨_, p'⟩ ⟨rfl, hp⟩
  exact h x p p' hp

theorem agrees_annotated (Γ : Setting) (dynamism : Dynamism) :
    τ.analysis.Agrees n Eq ( annotation Γ dynamism) ( annotation Γ dynamism) :=
  (reads_annotated Γ dynamism).agrees

/-! ## Operands, arguments and statements -/

theorem agrees_operand (hrec : rec.Agrees τ n) :
    τ.analysis.Agrees (n + 1) Eq (operand Γ rec) (operand Γ rec) :=
  (reads_next.bind fun _ _ ht ↦ hrec _ _ _ _ ht).agrees

/-- What follows an operand may depend on its type, and blame its place. -/
theorem agrees_operandAndSpan_bind {V : α → β → Prop} {f : Ty × Span → Analysis α}
    {f' : Ty × Span → Analysis β} (hrec : rec.Agrees τ n)
    (h : ∀ t p p', τ.place p p' → τ.analysis.Agrees (n + 1) V (f (t, p)) (f' (t, p'))) :
    τ.analysis.Agrees (n + 1) V (operandAndSpan Γ rec >>= f) (operandAndSpan Γ rec >>= f') := by
  have hread : τ.analysis.Reads (n + 1) (fun x x' ↦ x.1 = x'.1 ∧ τ.place x.2 x'.2)
      (operandAndSpan Γ rec) (operandAndSpan Γ rec) :=
    reads_next.bind fun _ _ ht ↦ (hrec _ _ _ _ ht).bind fun _ _ heq ↦ .pure ⟨heq, ht.span⟩
  refine hread.agrees.bind ?_
  rintro ⟨t, p⟩ ⟨_, p'⟩ ⟨rfl, hp⟩
  exact h t p p' hp

theorem agrees_fitting (hrec : rec.Agrees τ n) {token token' : Token} (ht : token.Alike τ token')
    (expected : Ty) :
    τ.analysis.Agrees n Eq (fitting Γ rec token expected) (fitting Γ rec token' expected) := by
  refine (hrec _ _ _ _ ht).bind_same fun found ↦ ?_
  exact (agrees_require _ (.renamed _) ht.span).bind_same fun _ ↦ .pure rfl

theorem agrees_operandFitting (hrec : rec.Agrees τ n) (expected : Ty) :
    τ.analysis.Agrees (n + 1) Eq (operandFitting Γ rec expected)
      (operandFitting Γ rec expected) :=
  (reads_next.bind fun _ _ ht ↦ agrees_fitting hrec ht expected).agrees

theorem agrees_operandsFitting (hrec : rec.Agrees τ n) (expected : List Ty) :
    τ.analysis.Agrees (n + 1) Eq (operandsFitting Γ rec expected)
      (operandsFitting Γ rec expected) := by
  induction expected with
  | nil => exact .pure rfl
  | cons t expected ih => exact (agrees_operandFitting hrec t).bind_same fun _ ↦ ih

/-- The arguments stand in brackets in both bodies or in neither. -/
theorem agrees_arguments (hrec : rec.Agrees τ n) (expected : List Ty) :
    τ.analysis.Agrees (n + 1) Eq (arguments Γ rec expected) (arguments Γ rec expected) := by
  have hbracket : τ.reading.Agrees (n + 1) (Option.Rel (Token.Alike τ))
      (Reading.accept (·.lexeme == .argumentsOpen))
      (Reading.accept (·.lexeme == .argumentsOpen)) :=
    Reading.agrees_accept fun ht ↦ ht.opensArguments_eq
  refine Agrees.bind (matches_reading hbracket) fun bracketed bracketed' hrel ↦ ?_
  refine (agrees_operandsFitting hrec _).bind_same fun _ ↦ ?_
  refine .ite (isSome_iff_of_rel hrel) ?_ (.pure rfl)
  exact Agrees.bind (matches_reading (Reading.reads_expect _).agrees) fun _ _ _ ↦ .pure rfl

theorem agrees_callMember (hrec : rec.Agrees τ n) (m : Member) (receiver : Ty)
    (hp : τ.place p p') :
    τ.analysis.Agrees (n + 1) Eq (callMember Γ rec m receiver p)
      (callMember Γ rec m receiver p') := by
  refine (agrees_require _ (.renamed _) hp).bind_same fun _ ↦ ?_
  exact (agrees_arguments hrec _).bind_same fun _ ↦ .pure rfl

theorem agrees_statement (hrec : rec.Agrees τ n) {token token' : Token}
    (ht : token.Alike τ token') :
    τ.analysis.Agrees n Eq (statement Γ rec token) (statement Γ rec token') := by
  refine (agrees_modifyFrame _).bind_same fun _ ↦ (hrec _ _ _ _ ht).bind_same fun _ ↦ ?_
  exact agrees_frame.bind_same fun f ↦ .ite Iff.rfl (agrees_warn .noEffect ht.span) (.pure rfl)

theorem agrees_statements (hrec : rec.Agrees τ n) :
    τ.analysis.Agrees (n + 1) Eq (statements Γ rec) (statements Γ rec) := by
  refine agrees_repeatUntil (U := Eq) (fun _ _ _ ↦ matches_turn ?_) rfl
  refine reads_next.bind fun token token' ht ↦ .ite (ht.asksFor_iff _) (.pure (.done rfl)) ?_
  exact (agrees_statement hrec ht).bind fun _ _ _ ↦ .pure (.again trivial rfl)

/-! ## Values -/

theorem agrees_stringLiteral (content : String) :
    τ.analysis.Agrees n Eq (stringLiteral content) (stringLiteral content) := by
  refine (agrees_intern _).bind_same fun index ↦ (agrees_emit _).bind_same fun _ ↦ ?_
  exact (agrees_emitNumber _).bind_same fun _ ↦ .pure rfl

theorem agrees_booleanLiteral (value : Bool) :
    τ.analysis.Agrees n Eq (booleanLiteral value) (booleanLiteral value) :=
  (agrees_emit _).bind_same fun _ ↦ .pure rfl

theorem agrees_integerLiteral (value : Int64) :
    τ.analysis.Agrees n Eq (integerLiteral value) (integerLiteral value) := by
  refine .ite Iff.rfl ?_ ?_
  · exact (agrees_emit _).bind_same fun _ ↦ (agrees_emitWide _).bind_same fun _ ↦ .pure rfl
  · exact (agrees_emit _).bind_same fun _ ↦ (agrees_emitWord _).bind_same fun _ ↦ .pure rfl

theorem agrees_doubleLiteral (bits : UInt64) :
    τ.analysis.Agrees n Eq (doubleLiteral bits) (doubleLiteral bits) :=
  (agrees_emit _).bind_same fun _ ↦ (agrees_emitWide _).bind_same fun _ ↦ .pure rfl

theorem agrees_symbolLiteral (value : Symbol) :
    τ.analysis.Agrees n Eq (symbolLiteral value) (symbolLiteral value) :=
  (agrees_emit _).bind_same fun _ ↦ (agrees_emitWord _).bind_same fun _ ↦ .pure rfl

theorem agrees_nothingnessLiteral :
    τ.analysis.Agrees n Eq nothingnessLiteral nothingnessLiteral :=
  (agrees_emit _).bind_same fun _ ↦ .pure rfl

theorem agrees_selfReference (hp : τ.place p p') :
    τ.analysis.Agrees n Eq (selfReference Γ p) (selfReference Γ p') := by
  refine (agrees_require _ (.renamed _) hp).bind_same fun _ ↦ agrees_frame.bind_same fun _ ↦ ?_
  refine (agrees_require _ (.renamed _) hp).bind_same fun _ ↦ ?_
  refine (agrees_requireComplete Γ hp).bind_same fun _ ↦ agrees_useSelf.bind_same fun _ ↦ ?_
  exact (agrees_emit _).bind_same fun _ ↦ .pure rfl

theorem agrees_emitEnumNumber (opcode : Hole) (number : UInt64) :
    τ.analysis.Agrees n Eq (emitEnumNumber opcode number) (emitEnumNumber opcode number) := by
  refine .ite Iff.rfl ?_ ?_
  · exact (agrees_fillOpcode _ _).bind_same fun _ ↦ agrees_emitWord _
  · exact (agrees_fillOpcode _ _).bind_same fun _ ↦ agrees_emitWide _

theorem agrees_enumValue (hp : τ.place p p') :
    τ.analysis.Agrees n Eq (enumValue Γ p) (enumValue Γ p') := by
  refine agrees_reserve.bind_same fun opcode ↦ (agrees_annotated _ _).bind_same fun ⟨t, _⟩ ↦ ?_
  refine (agrees_require _ (.renamed _) hp).bind_same fun _ ↦ ?_
  refine (agrees_require _ (.renamed _) hp).bind_same fun _ ↦ ?_
  refine agrees_name_bind fun value q q' hq ↦ ?_
  refine (agrees_demand_same _ (.renamed _) hq).bind_same fun number ↦ ?_
  exact (agrees_emitEnumNumber _ _).bind_same fun _ ↦ .pure rfl

theorem agrees_isNothingness (hrec : rec.Agrees τ n) :
    τ.analysis.Agrees (n + 1) Eq (isNothingness Γ rec) (isNothingness Γ rec) :=
  (agrees_emit _).bind_same fun _ ↦ (agrees_operand hrec).bind_same fun _ ↦ .pure rfl

theorem agrees_identical (hrec : rec.Agrees τ n) :
    τ.analysis.Agrees (n + 1) Eq (identical Γ rec) (identical Γ rec) := by
  refine (agrees_emit _).bind_same fun _ ↦ (agrees_operandFitting hrec _).bind_same fun _ ↦ ?_
  exact (agrees_operandFitting hrec _).bind_same fun _ ↦ .pure rfl

/-! ## Strings, collections and conversions -/

theorem agrees_concatenate (hrec : rec.Agrees τ n) :
    τ.analysis.Agrees (n + 1) Eq (concatenate Γ rec) (concatenate Γ rec) := by
  refine (agrees_emit _).bind_same fun _ ↦ agrees_reserve.bind_same fun count ↦ ?_
  refine (agrees_operandFitting hrec _).bind_same fun _ ↦ ?_
  refine .bind_same (agrees_repeatUntil (U := Eq) (fun strings _ heq ↦ matches_turn ?_) rfl)
    fun strings ↦ (agrees_fill _ _).bind_same fun _ ↦ .pure rfl
  subst heq
  refine reads_next.bind fun token token' ht ↦ .ite (ht.asksFor_iff _) (.pure (.done rfl)) ?_
  exact (agrees_fitting hrec ht _).bind fun _ _ _ ↦ .pure (.again trivial rfl)

theorem agrees_emptyElement (id : TypeId) (hint : Option Ty) (hp : τ.place p p') :
    τ.analysis.Agrees n Eq (emptyElement id hint p) (emptyElement id hint p') := by
  unfold emptyElement
  split
  · exact .pure rfl
  · exact (agrees_warn .emptyCollection hp).bind_same fun _ ↦ .pure rfl

theorem agrees_parts {part : Token → Analysis Ty}
    (hpart : ∀ t t', t.Alike τ t' → τ.analysis.Agrees n Eq (part t) (part t')) :
    τ.analysis.Agrees (n + 1) Eq (parts Γ part) (parts Γ part) := by
  refine agrees_repeatUntil (U := Eq) (fun common? _ heq ↦ matches_turn ?_) rfl
  subst heq
  refine reads_next.bind fun token token' ht ↦ .ite (ht.asksFor_iff _) (.pure (.done rfl)) ?_
  exact (hpart _ _ ht).bind_same fun t ↦ .pure (.again trivial rfl)

theorem agrees_collection {part : Token → Analysis Ty}
    (hpart : ∀ t t', t.Alike τ t' → τ.analysis.Agrees n Eq (part t) (part t')) (opcode : Opcode)
    (id : TypeId) (hint : Option Ty) (hp : τ.place p p') :
    τ.analysis.Agrees (n + 1) Eq (collection Γ opcode id part hint p)
      (collection Γ opcode id part hint p') := by
  refine (agrees_emit _).bind_same fun _ ↦ agrees_reserveCount.bind_same fun count ↦ ?_
  refine (agrees_parts hpart).bind_same fun common? ↦ (agrees_fillCount _).bind_same fun _ ↦ ?_
  cases common? with
  | some element => exact Agrees.bind_same (.pure rfl) fun _ ↦ .pure rfl
  | none => exact (agrees_emptyElement id hint hp).bind_same fun _ ↦ .pure rfl

theorem agrees_list (hrec : rec.Agrees τ n) (hint : Option Ty) (hp : τ.place p p') :
    τ.analysis.Agrees (n + 1) Eq (list Γ rec hint p) (list Γ rec hint p') :=
  agrees_collection (fun _ _ ht ↦ hrec _ _ _ _ ht) _ _ hint hp

theorem agrees_dictionary (hrec : rec.Agrees τ n) (hint : Option Ty) (hp : τ.place p p') :
    τ.analysis.Agrees (n + 1) Eq (dictionary Γ rec hint p) (dictionary Γ rec hint p') := by
  have hvalue : τ.analysis.Agrees n Eq (operand Γ rec) (operand Γ rec) :=
    (agrees_operand hrec).mono (Nat.le_succ n) fun _ _ _ h ↦ h
  exact agrees_collection (fun _ _ ht ↦ (agrees_fitting hrec ht _).bind_same fun _ ↦ hvalue) _ _
    hint hp

theorem agrees_cast (hrec : rec.Agrees τ n) (hp : τ.place p p') :
    τ.analysis.Agrees (n + 1) Eq (cast Γ rec p) (cast Γ rec p') := by
  refine agrees_reserve.bind_same fun opcode ↦ ?_
  refine (agrees_operandFitting hrec _).bind_same fun found ↦ ?_
  refine (agrees_annotated _ _).bind_same fun ⟨target, _⟩ ↦ ?_
  refine .optional Iff.rfl (agrees_warn .redundantCast hp) ?_
  dsimp only
  generalize target.kind = kind
  cases kind with
  | object id =>
    refine (agrees_demand_same _ (.renamed _) hp).bind_same fun c ↦ ?_
    refine (agrees_require _ (.renamed _) hp).bind_same fun _ ↦ ?_
    refine (agrees_fillOpcode _ _).bind_same fun _ ↦ (agrees_emitNumber _).bind_same fun _ ↦ ?_
    exact .pure rfl
  | protocol id =>
    refine (agrees_demand_same _ (.renamed _) hp).bind_same fun q ↦ ?_
    refine (agrees_fillOpcode _ _).bind_same fun _ ↦ (agrees_emitNumber _).bind_same fun _ ↦ ?_
    exact .pure rfl
  | boolean | integer | symbol | double =>
    exact (agrees_fillOpcode _ _).bind_same fun _ ↦ .pure rfl
  | _ => exact (agrees_fail (.renamed _) hp).bind_same fun _ ↦ .pure rfl

theorem agrees_unwrap (hrec : rec.Agrees τ n) (hp : τ.place p p') :
    τ.analysis.Agrees (n + 1) Eq (unwrap Γ rec p) (unwrap Γ rec p') := by
  refine (agrees_emit _).bind_same fun _ ↦ (agrees_operand hrec).bind_same fun t ↦ ?_
  exact (agrees_require _ (.renamed _) hp).bind_same fun _ ↦ .pure rfl

/-! ## Calls and instances -/

theorem agrees_call (hrec : rec.Agrees τ n) (method : Symbol) (hp : τ.place p p') :
    τ.analysis.Agrees (n + 1) Eq (call Γ rec method p) (call Γ rec method p') := by
  refine agrees_reserve.bind_same fun opcode ↦ ?_
  refine agrees_operandAndSpan_bind hrec fun receiver q q' hq ↦ ?_
  refine (agrees_require _ (.renamed _) hq).bind_same fun _ ↦ ?_
  dsimp only
  generalize (dispatchType Γ receiver).kind = kind
  cases kind with
  | protocol id =>
    refine (agrees_demand_same _ (.renamed _) hp).bind_same fun q ↦ ?_
    refine (agrees_demand_same _ (.renamed _) hp).bind_same fun m ↦ ?_
    refine (agrees_fillOpcode _ _).bind_same fun _ ↦ (agrees_emitNumber _).bind_same fun _ ↦ ?_
    exact (agrees_emitNumber _).bind_same fun _ ↦ agrees_callMember hrec _ _ hp
  | object id =>
    refine (agrees_demand_same _ (.renamed _) hp).bind_same fun m ↦ ?_
    refine (agrees_fillOpcode _ _).bind_same fun _ ↦ (agrees_emitNumber _).bind_same fun _ ↦ ?_
    exact agrees_callMember hrec _ _ hp
  | _ =>
    refine (agrees_demand_same _ (.renamed _) hp).bind_same fun operation ↦ ?_
    refine (agrees_fillOpcode _ _).bind_same fun _ ↦ ?_
    cases operation.operand? with
    | some t => exact (agrees_operandFitting hrec t).bind_same fun _ ↦ .pure rfl
    | none => exact .pure rfl

theorem agrees_optionalChain (hrec : rec.Agrees τ n) (hp : τ.place p p') :
    τ.analysis.Agrees (n + 1) Eq (optionalChain Γ rec p) (optionalChain Γ rec p') := by
  refine (agrees_emit _).bind_same fun _ ↦ agrees_reserveCount.bind_same fun count ↦ ?_
  refine agrees_name_bind fun method q q' hq ↦ (agrees_operand hrec).bind_same fun t ↦ ?_
  refine (agrees_require _ (.renamed _) hp).bind_same fun _ ↦ ?_
  refine (agrees_demand_same _ (.renamed _) hq).bind_same fun m ↦ ?_
  refine (agrees_emitNumber _).bind_same fun _ ↦ (agrees_fillCount _).bind_same fun _ ↦ ?_
  exact (agrees_callMember hrec _ _ hq).bind_same fun _ ↦ .pure rfl

theorem agrees_callClassMethod (hrec : rec.Agrees τ n) :
    τ.analysis.Agrees (n + 1) Eq (callClassMethod Γ rec) (callClassMethod Γ rec) := by
  refine (agrees_emit _).bind_same fun _ ↦ agrees_name_bind fun method q q' hq ↦ ?_
  refine (agrees_annotated _ _).bind_same fun ⟨annotated, _⟩ ↦ ?_
  refine .optional Iff.rfl (agrees_warn .redundantOptionalMark hq) ?_
  refine (agrees_demand_same _ (.renamed _) hq).bind_same fun c ↦ ?_
  refine (agrees_emitWord _).bind_same fun _ ↦ ?_
  refine (agrees_demand_same _ (.renamed _) hq).bind_same fun m ↦ ?_
  exact (agrees_emitNumber _).bind_same fun _ ↦ agrees_callMember hrec _ _ hq

theorem agrees_callSuperMethod (hrec : rec.Agrees τ n) (hp : τ.place p p') :
    τ.analysis.Agrees (n + 1) Eq (callSuperMethod Γ rec p) (callSuperMethod Γ rec p') := by
  refine agrees_name_bind fun method q q' hq ↦ ?_
  refine (agrees_require _ (.renamed _) hp).bind_same fun _ ↦ ?_
  refine (agrees_demand_same _ (.renamed _) hp).bind_same fun parent ↦ ?_
  refine (agrees_emit _).bind_same fun _ ↦ (agrees_emitNumber _).bind_same fun _ ↦ ?_
  refine (agrees_demand_same _ (.renamed _) hq).bind_same fun m ↦ ?_
  refine (agrees_emitNumber _).bind_same fun _ ↦ agrees_useSelf.bind_same fun _ ↦ ?_
  exact agrees_callMember hrec _ _ hq

theorem agrees_captureMethod (hrec : rec.Agrees τ n) :
    τ.analysis.Agrees (n + 1) Eq (captureMethod Γ rec) (captureMethod Γ rec) := by
  refine agrees_name_bind fun method q q' hq ↦ (agrees_emit _).bind_same fun _ ↦ ?_
  refine agrees_operandAndSpan_bind hrec fun receiver p p' hp ↦ ?_
  refine (agrees_require _ (.renamed _) hp).bind_same fun _ ↦ ?_
  refine (agrees_demand_same _ (.renamed _) hq).bind_same fun m ↦ ?_
  refine (agrees_emitNumber _).bind_same fun _ ↦ ?_
  exact (agrees_require _ (.renamed _) hq).bind_same fun _ ↦ .pure rfl

theorem agrees_invoke (hrec : rec.Agrees τ n) :
    τ.analysis.Agrees (n + 1) Eq (invoke Γ rec) (invoke Γ rec) := by
  refine (agrees_emit _).bind_same fun _ ↦ ?_
  refine agrees_operandAndSpan_bind hrec fun t p p' hp ↦ ?_
  refine (agrees_require _ (.renamed _) hp).bind_same fun _ ↦ ?_
  exact (agrees_arguments hrec _).bind_same fun _ ↦ .pure rfl

theorem agrees_instantiate (hrec : rec.Agrees τ n) (hp : τ.place p p') :
    τ.analysis.Agrees (n + 1) Eq (instantiate Γ rec p) (instantiate Γ rec p') := by
  refine (agrees_emit _).bind_same fun _ ↦ (agrees_annotated _ _).bind_same fun ⟨t, dynamic⟩ ↦ ?_
  refine (agrees_demand_same _ (.renamed _) hp).bind_same fun c ↦ ?_
  refine (agrees_require _ (.renamed _) hp).bind_same fun _ ↦ ?_
  refine (agrees_emitWord _).bind_same fun _ ↦ agrees_name_bind fun initializer q q' hq ↦ ?_
  refine (agrees_demand_same _ (.renamed _) hq).bind_same fun m ↦ ?_
  refine (agrees_require _ (.renamed _) hq).bind_same fun _ ↦ ?_
  refine (agrees_emitNumber _).bind_same fun _ ↦ ?_
  refine (agrees_require _ (.renamed _) hq).bind_same fun _ ↦ ?_
  exact (agrees_arguments hrec _).bind_same fun _ ↦ .pure rfl

theorem agrees_superInitializer (hrec : rec.Agrees τ n) (hp : τ.place p p') :
    τ.analysis.Agrees (n + 1) Eq (superInitializer Γ rec p) (superInitializer Γ rec p') := by
  refine (agrees_require _ (.renamed _) hp).bind_same fun _ ↦ ?_
  refine (agrees_demand_same _ (.renamed _) hp).bind_same fun parent ↦ ?_
  refine agrees_frame.bind_same fun _ ↦ (agrees_require _ (.renamed _) hp).bind_same fun _ ↦ ?_
  refine agrees_frame.bind_same fun _ ↦ (agrees_require _ (.renamed _) hp).bind_same fun _ ↦ ?_
  refine (agrees_requireComplete Γ hp).bind_same fun _ ↦ (agrees_emit _).bind_same fun _ ↦ ?_
  refine (agrees_emitNumber _).bind_same fun _ ↦ agrees_name_bind fun initializer q q' hq ↦ ?_
  refine (agrees_demand_same _ (.renamed _) hq).bind_same fun m ↦ ?_
  refine (agrees_emitNumber _).bind_same fun _ ↦ ?_
  refine (agrees_require _ (.renamed _) hq).bind_same fun _ ↦ ?_
  refine (agrees_arguments hrec _).bind_same fun _ ↦ ?_
  exact (agrees_modifyFrame _).bind_same fun _ ↦ .pure rfl

theorem agrees_returnValue (hrec : rec.Agrees τ n) (hp : τ.place p p') :
    τ.analysis.Agrees (n + 1) Eq (returnValue Γ rec p) (returnValue Γ rec p') := by
  refine agrees_frame.bind_same fun _ ↦ (agrees_require _ (.renamed _) hp).bind_same fun _ ↦ ?_
  refine (agrees_modifyFrame _).bind_same fun _ ↦ ?_
  cases Γ.initializer? with
  | some initializer =>
    refine (agrees_require _ (.renamed _) hp).bind_same fun _ ↦ (agrees_emit _).bind_same fun _ ↦ ?_
    exact (agrees_operandFitting hrec _).bind_same fun _ ↦ .pure rfl
  | none =>
    refine (agrees_require _ (.renamed _) hp).bind_same fun _ ↦ (agrees_emit _).bind_same fun _ ↦ ?_
    refine (agrees_operandFitting hrec _).bind_same fun _ ↦ ?_
    exact (agrees_modifyFrame _).bind_same fun _ ↦ .pure rfl

/-! ## Variables -/

theorem agrees_readVariable (x : String) (hp : τ.place p p') :
    τ.analysis.Agrees n Eq (readVariable x p) (readVariable (τ.name x) p') := by
  refine Agrees.bind (agrees_resolve? x) fun found? found?' hfound ↦ ?_
  refine Agrees.bind (agrees_demand hfound (.renamed (.unresolvedVariable x)) hp) ?_
  rintro ⟨storage, v⟩ ⟨_, v'⟩ ⟨rfl, hv⟩
  refine (agrees_lift (hv.requireReady hp)).bind_same fun _ ↦ ?_
  dsimp only
  rw [hv.slot, hv.type]
  exact (agrees_emitAccess _ _ _).bind_same fun _ ↦ .pure rfl

theorem agrees_declareVariable :
    τ.analysis.Agrees n Eq (declareVariable Γ) (declareVariable Γ) := by
  refine agrees_variableName_bind fun x q q' hq ↦ ?_
  refine (agrees_requireUndeclared x hq).bind_same fun _ ↦ ?_
  refine (agrees_annotated _ _).bind_same fun ⟨type, _⟩ ↦ ?_
  refine (agrees_newSlot Γ hq).bind_same fun slot ↦ (agrees_declare ?_).bind_same fun _ ↦ .pure rfl
  have hv : Variable.Alike τ τ.place { name := x, type, slot, span := q }
      { name := τ.name x, type, slot, span := q' } := ⟨rfl, rfl, rfl, rfl, rfl, rfl, hq⟩
  split
  · exact hv.ready
  · exact hv

theorem agrees_storeNew (hrec : rec.Agrees τ n) (x : String) (hp : τ.place p p') :
    τ.analysis.Agrees (n + 1) (Variable.Alike τ τ.place) (storeNew Γ rec x p)
      (storeNew Γ rec (τ.name x) p') := by
  refine (agrees_emit _).bind_same fun _ ↦ (agrees_newSlot Γ hp).bind_same fun slot ↦ ?_
  refine (agrees_emitNumber _).bind_same fun _ ↦ (agrees_operand hrec).bind_same fun type ↦ ?_
  exact .pure ⟨rfl, rfl, rfl, rfl, rfl, rfl, hp⟩

theorem agrees_declareFrozen (hrec : rec.Agrees τ n) :
    τ.analysis.Agrees (n + 1) Eq (declareFrozen Γ rec) (declareFrozen Γ rec) := by
  refine agrees_variableName_bind fun x q q' hq ↦ ?_
  refine (agrees_requireUndeclared x hq).bind_same fun _ ↦ ?_
  refine (agrees_storeNew hrec x hq).bind fun v v' hv ↦ ?_
  exact (agrees_declare hv.frozen).bind_same fun _ ↦ .pure rfl

/-! ### Mutation

What follows a lookup goes from one state to the next, for the variable that was found has to be the
one that is replaced. -/

/-- What follows a lookup may depend on what the name refers to. -/
theorem agrees_resolve?_bind {V : α → β → Prop} {x : String}
    {f : Option (Storage × Variable) → Analysis α} {f' : Option (Storage × Variable) → Analysis β}
    (h : ∀ s s' found? found?', s.Alike τ s' → τ.analysis.size s < n →
      s.environment.resolve? x = found? →
      Option.Rel (fun y y' ↦ y.1 = y'.1
        ∧ y.2.Alike τ (Environment.Alike.placeOf τ y.1) y'.2) found? found?' →
      τ.analysis.Ends (fun _ ↦ V) (τ.analysis.size s) (f found? s) (f' found?' s')) :
    τ.analysis.Agrees n V (resolve? x >>= f) (resolve? (τ.name x) >>= f') :=
  fun s s' hs hlt ↦ h s s' _ _ hs hlt rfl (hs.environment.resolve? x)

/-- A computation without a state comes first. -/
theorem ends_lift_bind {U : α → β → Prop} {V : Prop → γ → δ → Prop} {start : Nat}
    {x : Except Fault α} {x' : Except Fault β} {f : α → Analysis γ} {f' : β → Analysis δ}
    {s s' : State} (hx : τ.Outcomes U x x') (hs : s.Alike τ s')
    (hf : ∀ a b, U a b → τ.analysis.Ends V start (f a s) (f' b s')) :
    τ.analysis.Ends V start ((lift x >>= f) s) ((lift x' >>= f') s') := by
  cases hx with
  | ok h => exact hf _ _ h
  | error he => exact .error he hs

/-- A check comes first. -/
theorem ends_require_bind {V : Prop → α → β → Prop} {start : Nat} {condition : Bool}
    {cause cause' : Cause} {f : Unit → Analysis α} {f' : Unit → Analysis β} {s s' : State}
    (hc : cause.Alike τ.name cause') (hp : τ.place p p') (hs : s.Alike τ s')
    (hf : τ.analysis.Ends V start (f () s) (f' () s')) :
    τ.analysis.Ends V start ((require condition cause p >>= f) s)
      ((require condition cause' p' >>= f') s') := by
  cases condition with
  | true => exact hf
  | false => exact .error (.diagnosed hc hp) hs

/-- The variable that a name refers to is mutated first. -/
theorem ends_mutate_bind {V : α → β → Prop} {x : String} {storage : Storage} {v v' : Variable}
    {f : Unit → Analysis α} {f' : Unit → Analysis β} {s s' : State} (hs : s.Alike τ s')
    (hlt : τ.analysis.size s < n) (hx : s.environment.resolve? x = some (storage, v))
    (hv : v.Alike τ (Environment.Alike.placeOf τ storage) v') (hp : τ.place p p')
    (hf : τ.analysis.Agrees n V (f ()) (f' ())) :
    τ.analysis.Ends (fun _ ↦ V) (τ.analysis.size s)
      ((lift (v.mutate p) >>= fun w ↦ modifyEnvironment (·.update x fun _ ↦ w) >>= f) s)
      ((lift (v'.mutate p') >>= fun w ↦ modifyEnvironment (·.update (τ.name x) fun _ ↦ w) >>= f')
        s') := by
  refine ends_lift_bind (hv.mutate hp) hs fun w w' hw ↦ ?_
  have ht : State.Alike τ { s with environment := s.environment.update x fun _ ↦ w }
      { s' with environment := s'.environment.update (τ.name x) fun _ ↦ w' } :=
    { hs with environment := hs.environment.replace hx hw }
  exact hf _ _ ht hlt

theorem agrees_assign (hrec : rec.Agrees τ n) :
    τ.analysis.Agrees (n + 1) Eq (assign Γ rec) (assign Γ rec) := by
  refine agrees_variableName_bind fun x q q' hq ↦ ?_
  refine agrees_resolve?_bind fun s s' found? found?' hs hlt hx hfound ↦ ?_
  cases hfound with
  | none =>
    have hnew : τ.analysis.Agrees (n + 1) Eq
        (storeNew Γ rec x q >>= fun v ↦ declare v >>= fun _ ↦ pure Ty.nothingness)
        (storeNew Γ rec (τ.name x) q' >>= fun v ↦ declare v >>= fun _ ↦ pure Ty.nothingness) :=
      (agrees_storeNew hrec x hq).bind fun v v' hv ↦ (agrees_declare hv).bind_same fun _ ↦ .pure rfl
    exact hnew s s' hs hlt
  | @some y y' hy =>
    obtain ⟨storage, v⟩ := y
    obtain ⟨_, v'⟩ := y'
    obtain ⟨rfl, hv⟩ := hy
    refine ends_mutate_bind hs hlt hx hv hq ?_
    dsimp only
    rw [hv.slot, hv.type]
    refine (agrees_emitAccess _ _ _).bind_same fun _ ↦ ?_
    refine (agrees_operandFitting hrec _).bind_same fun _ ↦ ?_
    exact (agrees_modifyEnvironment fun _ _ he ↦ he.settleNamed x).bind_same fun _ ↦ .pure rfl

theorem agrees_stepVariable (construct : Construct) (action : Access) :
    τ.analysis.Agrees n Eq (stepVariable Γ construct action) (stepVariable Γ construct action) := by
  refine agrees_variableName_bind fun x q q' hq ↦ ?_
  refine agrees_resolve?_bind fun s s' found? found?' hs hlt hx hfound ↦ ?_
  cases hfound with
  | none => exact .error (.renamed (.unresolvedVariable x) hq) hs
  | @some y y' hy =>
    obtain ⟨storage, v⟩ := y
    obtain ⟨_, v'⟩ := y'
    obtain ⟨rfl, hv⟩ := hy
    refine ends_lift_bind (hv.requireReady hq) hs fun _ _ _ ↦ ?_
    dsimp only
    rw [hv.type, hv.slot]
    refine ends_require_bind (.renamed _) hq hs (ends_mutate_bind hs hlt hx hv hq ?_)
    exact (agrees_emitAccess _ _ _).bind_same fun _ ↦ .pure rfl

/-! ## Blocks, branches and loops -/

theorem agrees_enterConditional (withFields : Bool) :
    τ.analysis.Agrees n Eq (enterConditional withFields) (enterConditional withFields) := by
  refine .look fun s s' hs ↦ ?_
  rw [hs.environment.canShift_eq]
  refine Agrees.optional Iff.rfl (.throw .overflowed) ?_
  exact agrees_modifyEnvironment fun _ _ he ↦ he.shift 1 withFields

theorem agrees_conditionalBlock (hrec : rec.Agrees τ n) :
    τ.analysis.Agrees (n + 1) Eq (conditionalBlock Γ rec) (conditionalBlock Γ rec) := by
  refine (agrees_enterConditional _).bind_same fun _ ↦ (agrees_modifyFrame _).bind_same fun _ ↦ ?_
  refine Agrees.bind (matches_reading (Reading.reads_expectConstruct _ _).agrees) fun _ _ _ ↦ ?_
  refine agrees_reserveCount.bind_same fun count ↦ (agrees_statements hrec).bind_same fun _ ↦ ?_
  refine (agrees_fillCount _).bind_same fun _ ↦ .look fun s s' hs ↦ ?_
  refine (agrees_modifyEnvironment fun _ _ _ ↦ hs.environment.shift _ _).bind_same fun _ ↦ ?_
  exact (agrees_modifyFrame _).bind_same fun _ ↦ .pure (hs.environment.settledHere_eq _).symm

theorem agrees_recommendFrozen {candidates candidates' : List Variable}
    (h : List.Forall₂ (Variable.Alike τ τ.place) candidates candidates') :
    τ.analysis.Agrees n Eq (recommendFrozen Γ candidates) (recommendFrozen Γ candidates') := by
  refine .ite Iff.rfl (Agrees.forM h fun v v' hv ↦ ?_) (.pure rfl)
  rw [hv.name]
  exact agrees_warn (.couldBeFrozen v.name) hv.span

/-- Analyses that correspond do so in scopes of their own. -/
theorem agrees_inScope {V : α → β → Prop} {m : Analysis α} {m' : Analysis β}
    (hm : τ.analysis.Agrees n V m m') : τ.analysis.Agrees n V (inScope Γ m) (inScope Γ m') := by
  refine (agrees_modifyEnvironment fun _ _ he ↦ he.push .empty).bind_same fun _ ↦ ?_
  refine hm.bind fun a b hab ↦ .look fun s s' hs ↦ ?_
  have hpop := hs.environment.pop?
  generalize s.environment.pop? = popped?, s'.environment.pop? = popped?' at hpop ⊢
  cases hpop with
  | none => exact .pure hab
  | some h =>
    refine (agrees_modifyEnvironment fun _ _ _ ↦ h.2).bind_same fun _ ↦ ?_
    exact (agrees_recommendFrozen h.1.freezable).bind_same fun _ ↦ .pure hab

theorem agrees_condition (hrec : rec.Agrees τ n) :
    τ.analysis.Agrees (n + 1) Eq (condition Γ rec) (condition Γ rec) := by
  refine (agrees_accepts _).bind_same fun _ ↦ .ite Iff.rfl ?_ ?_
  · refine agrees_variableName_bind fun x q q' hq ↦ ?_
    refine (agrees_requireUndeclared x hq).bind_same fun _ ↦ (agrees_emit _).bind_same fun _ ↦ ?_
    refine (agrees_newSlot Γ hq).bind_same fun slot ↦ (agrees_emitNumber _).bind_same fun _ ↦ ?_
    refine agrees_here.bind fun p p' hp ↦ (agrees_operand hrec).bind_same fun t ↦ ?_
    refine (agrees_require _ (.renamed _) hp).bind_same fun _ ↦ agrees_declare ?_
    exact ⟨rfl, rfl, rfl, rfl, rfl, rfl, hq⟩
  · exact (agrees_operandFitting hrec _).bind_same fun _ ↦ .pure rfl

theorem agrees_branch (hrec : rec.Agrees τ n) :
    τ.analysis.Agrees (n + 1) Eq (branch Γ rec) (branch Γ rec) :=
  agrees_inScope ((agrees_condition hrec).bind_same fun _ ↦ agrees_conditionalBlock hrec)

theorem agrees_ifChain (hrec : rec.Agrees τ n) :
    τ.analysis.Agrees (n + 1) Eq (ifChain Γ rec) (ifChain Γ rec) := by
  refine (agrees_emit _).bind_same fun _ ↦ agrees_reserveCount.bind_same fun count ↦ ?_
  refine (agrees_branch hrec).bind_same fun first ↦ ?_
  refine .bind_same (agrees_repeatUntil (U := Eq) (fun branches _ heq ↦ ?_) rfl)
    fun conditional ↦ ?_
  · subst heq
    -- what is read is the symbol in front of the branch
    refine (matches_accepts _).bind ?_
    rintro read more _ ⟨rfl, hread⟩
    cases more with
    | false => exact .pure (.done rfl)
    | true =>
      refine Matches.bind (agrees_emit _) fun _ _ _ _ ↦ ?_
      refine Matches.bind (agrees_branch hrec) fun _ settled _ heq ↦ ?_
      subst heq
      exact .pure (.again (.inl (hread rfl)) rfl)
  refine (agrees_accepts _).bind_same fun _ ↦ .ite Iff.rfl ?_ ?_
  · refine (agrees_emit _).bind_same fun _ ↦ ?_
    refine (agrees_inScope (agrees_conditionalBlock hrec)).bind_same fun last ↦ ?_
    refine (agrees_fillCount _).bind_same fun _ ↦ ?_
    exact (agrees_modifyEnvironment fun _ _ he ↦ he.settleEach _).bind_same fun _ ↦ .pure rfl
  · exact (agrees_fillCount _).bind_same fun _ ↦ .pure rfl

theorem agrees_repeatWhile (hrec : rec.Agrees τ n) :
    τ.analysis.Agrees (n + 1) Eq (repeatWhile Γ rec) (repeatWhile Γ rec) := by
  refine (agrees_emit _).bind_same fun _ ↦ (agrees_operandFitting hrec _).bind_same fun _ ↦ ?_
  exact (agrees_inScope (agrees_conditionalBlock hrec)).bind_same fun _ ↦ .pure rfl

theorem agrees_forIn (hrec : rec.Agrees τ n) (hp : τ.place p p') :
    τ.analysis.Agrees (n + 1) Eq (forIn Γ rec p) (forIn Γ rec p') := by
  refine agrees_reserve.bind_same fun opcode ↦ agrees_variableName_bind fun x q q' hq ↦ ?_
  refine (agrees_inScope ?_).bind_same fun _ ↦ .pure rfl
  refine (agrees_newSlot Γ hq).bind_same fun slot ↦ (agrees_emitNumber _).bind_same fun _ ↦ ?_
  refine (agrees_newSlot Γ hq).bind_same fun hidden ↦ (agrees_emitNumber _).bind_same fun _ ↦ ?_
  refine (agrees_operandFitting hrec _).bind_same fun t ↦ ?_
  refine (agrees_demand_same _ (.renamed _) hp).bind_same fun element ↦ ?_
  refine (agrees_fillOpcode _ _).bind_same fun _ ↦ ?_
  refine (agrees_declare ?_).bind_same fun _ ↦ agrees_conditionalBlock hrec
  exact ⟨rfl, rfl, rfl, rfl, rfl, rfl, hq⟩

end Analysis

/-! ## Bodies -/

/-- An argument under its other name. -/
structure Argument.Alike (τ : Transcription) (a a' : Argument) : Prop where
  name : a'.name = τ.name a.name
  type : a'.type = a.type

namespace Analysis

open Comparison

variable {τ : Transcription} {n : Nat} {Γ : Setting} {rec : Recursion} {p p' : Span}

theorem agrees_declareArgument {a a' : Argument} (ha : a.Alike τ a') (hp : τ.place p p') :
    τ.analysis.Agrees n Eq (declareArgument Γ p a) (declareArgument Γ p' a') := by
  refine (agrees_newSlot Γ hp).bind_same fun slot ↦ agrees_declare ?_
  exact ⟨ha.name, ha.type, rfl, rfl, rfl, rfl, hp⟩

theorem agrees_declareCaptured (first : Nat) {v v' : Variable} (hv : v.Alike τ τ.place v')
    (hp : τ.place p p') :
    τ.analysis.Agrees n Eq (declareCaptured Γ p first v) (declareCaptured Γ p' first v') := by
  refine .look fun s s' hs ↦ ?_
  rw [hv.name, hs.environment.current.contains_eq]
  refine .ite Iff.rfl ?_ (.pure rfl)
  dsimp only
  rw [hv.slot]
  refine (agrees_requireSlot Γ _ hp).bind_same fun _ ↦ agrees_declare ?_
  exact { hv with name := rfl, slot := rfl }

theorem agrees_takeOver {captured captured' : List Variable} (outerSlots : Nat)
    (hcaptured : List.Forall₂ (Variable.Alike τ τ.place) captured captured') (hp : τ.place p p') :
    τ.analysis.Agrees n Eq (takeOver Γ p captured outerSlots)
      (takeOver Γ p' captured' outerSlots) := by
  refine agrees_frame.bind_same fun f ↦ .ite Iff.rfl ?_ (.pure rfl)
  refine Agrees.bind_same (.forM hcaptured fun _ _ hv ↦ agrees_declareCaptured _ hv hp) fun _ ↦ ?_
  exact (agrees_modifyFrame _).bind_same fun _ ↦ .pure rfl

theorem agrees_skipBody : τ.analysis.Agrees n τ.place skipBody skipBody := by
  refine agrees_repeatUntil (U := Eq) (fun depth _ heq ↦ matches_turn ?_) rfl
  subst heq
  refine .bind_of_le (Nat.le_succ n) reads_next fun token token' ht ↦ ?_
  refine .ite (ht.asksFor_iff _) (.pure (.again trivial rfl)) ?_
  refine .ite (ht.asksFor_iff _) (.pure ?_) (.pure (.again trivial rfl))
  by_cases hdepth : depth = 0
  · rw [if_pos hdepth, if_pos hdepth]
    exact .done ht.span
  · rw [if_neg hdepth, if_neg hdepth]
    exact .again trivial rfl

theorem agrees_deadStatement? :
    τ.analysis.Agrees n (Option.Rel (Token.Alike τ)) deadStatement? deadStatement? := by
  refine agrees_frame.bind_same fun f ↦ .ite Iff.rfl ?_ (.pure .none)
  refine .look fun s s' hs ↦ .pure ?_
  have hpeek := hs.cursor.peek
  generalize s.cursor.peek = token?, s'.cursor.peek = token?' at hpeek ⊢
  cases hpeek with
  | none => exact .none
  | some ht =>
    rw [Option.filter_some, Option.filter_some, ht.asksFor_eq]
    split
    · exact .some ht
    · exact .none

theorem agrees_bodyStatements (hrec : rec.Agrees τ n) :
    τ.analysis.Agrees (n + 1) τ.place (bodyStatements Γ rec) (bodyStatements Γ rec) := by
  refine agrees_repeatUntil (U := Eq) (fun reported _ heq ↦ matches_turn ?_) rfl
  subst heq
  refine reads_next.bind fun token token' ht ↦ ?_
  refine .ite (ht.asksFor_iff _) (.pure (.done ht.span)) ?_
  refine (agrees_statement hrec ht).bind_same fun _ ↦ ?_
  refine .ite Iff.rfl (.pure (.again trivial rfl)) ?_
  refine Agrees.bind agrees_deadStatement? fun dead? dead?' hdead ↦ ?_
  cases hdead with
  | none => exact .pure (.again trivial rfl)
  | some hdead =>
    refine (agrees_warn .deadCode hdead.span).bind_same fun _ ↦ ?_
    refine .ite Iff.rfl (.pure (.again trivial rfl)) ?_
    exact Agrees.bind agrees_skipBody fun _ _ hp ↦ .pure (.done hp)

theorem agrees_leaveBody (firstTaken outerSlots : Nat) (hp : τ.place p p') :
    τ.analysis.Agrees n Eq (leaveBody Γ firstTaken outerSlots p)
      (leaveBody Γ firstTaken outerSlots p') := by
  refine .look fun s s' hs ↦ (agrees_recommendFrozen ?_).bind_same fun _ ↦ ?_
  · refine forall₂_filter hs.environment.current.freezable fun _ _ hv ↦ ?_
    rw [hv.slot]
  refine agrees_frame.bind_same fun _ ↦ (agrees_require _ (.renamed _) hp).bind_same fun _ ↦ ?_
  refine (agrees_requireComplete Γ hp).bind_same fun _ ↦ agrees_frame.bind_same fun _ ↦ ?_
  refine (agrees_require _ (.renamed _) hp).bind_same fun _ ↦ ?_
  exact agrees_frame.bind_same fun _ ↦ .pure rfl

/-- **Bodies are analysed alike**, if the expressions in them are. -/
theorem agrees_body (hrec : rec.Agrees τ n) {arguments arguments' : List Argument}
    {captured captured' : List Variable} (outerSlots : Nat)
    (harguments : List.Forall₂ (Argument.Alike τ) arguments arguments')
    (hcaptured : List.Forall₂ (Variable.Alike τ τ.place) captured captured') :
    τ.analysis.Agrees (n + 1) Eq (body Γ rec arguments captured outerSlots)
      (body Γ rec arguments' captured' outerSlots) := by
  refine agrees_here.bind fun p p' hp ↦ ?_
  refine .bind_same (.forM harguments fun _ _ ha ↦ agrees_declareArgument ha hp) fun _ ↦ ?_
  refine (agrees_takeOver outerSlots hcaptured hp).bind_same fun first ↦ ?_
  exact (agrees_bodyStatements hrec).bind fun _ _ hending ↦ agrees_leaveBody _ _ hending

/-! ## Closures -/

theorem agrees_closureArguments :
    τ.analysis.Agrees n (List.Forall₂ (Argument.Alike τ)) (closureArguments Γ)
      (closureArguments Γ) := by
  refine agrees_repeatUntil (U := List.Forall₂ (Argument.Alike τ)) (fun l l' hl ↦ ?_) .nil
  refine (matches_reading Reading.matches_acceptReference).bind ?_
  rintro read x? _ ⟨rfl, hread⟩
  cases x? with
  | none => exact .pure (.done hl)
  | some x =>
    refine Matches.bind (agrees_annotated _ _) ?_
    rintro _ ⟨type, dynamic⟩ _ rfl
    exact .pure (.again (.inl (hread rfl)) (List.rel_append hl (.cons ⟨rfl, rfl⟩ .nil)))

theorem agrees_closureResult :
    τ.analysis.Agrees n Eq (closureResult Γ) (closureResult Γ) := by
  refine Agrees.bind (matches_reading (Reading.agrees_acceptSymbol _)) fun arrow? arrow?' h ↦ ?_
  refine .ite (isSome_iff_of_rel h) ?_ (.pure rfl)
  exact (agrees_annotated _ _).bind_same fun _ ↦ .pure rfl

theorem agrees_closure (hrec : rec.Agrees τ n) :
    τ.analysis.Agrees (n + 1) Eq (closure Γ rec) (closure Γ rec) := by
  refine Agrees.bind agrees_closureArguments fun arguments arguments' harguments ↦ ?_
  have htypes : arguments'.map (·.type) = arguments.map (·.type) :=
    map_eq_of_forall₂ harguments fun _ _ ha ↦ ha.type
  refine agrees_closureResult.bind_same fun result ↦ (agrees_emit _).bind_same fun _ ↦ ?_
  refine agrees_reserve.bind_same fun slots ↦ agrees_reserveCount.bind_same fun count ↦ ?_
  refine .look fun s s' hs ↦ agrees_frame.bind_same fun f ↦ ?_
  refine .bind_same (agrees_inFrame (agrees_body hrec _ harguments hs.environment.visible))
    fun summary ↦ (agrees_fillCount _).bind_same fun _ ↦ ?_
  rw [← harguments.length_eq, htypes]
  refine .ite Iff.rfl ?_ ?_
  · refine agrees_useSelf.bind_same fun _ ↦ (agrees_emitWord _).bind_same fun _ ↦ ?_
    refine (agrees_emitNumber _).bind_same fun _ ↦ (agrees_fill _ _).bind_same fun _ ↦ ?_
    exact .pure rfl
  · refine (agrees_emitWord _).bind_same fun _ ↦ (agrees_emitNumber _).bind_same fun _ ↦ ?_
    exact (agrees_fill _ _).bind_same fun _ ↦ .pure rfl

/-! ## Expressions -/

theorem agrees_noExpression {token token' : Token} (ht : token.Alike τ token') :
    τ.analysis.Agrees n Eq (noExpression token) (noExpression token') := by
  rw [noExpression, noExpression, ht.lexeme]
  exact agrees_fail (Lexeme.refused_rename _ _ _) ht.span

/-- **Every construct is analysed alike**, if the expressions in it are. -/
theorem agrees_construct (hrec : rec.Agrees τ n) {token token' : Token}
    (ht : token.Alike τ token') (symbol : Symbol) (hint : Option Ty) :
    τ.analysis.Agrees (n + 1) Eq (construct Γ rec token symbol hint)
      (construct Γ rec token' symbol hint) := by
  have hp := ht.span
  unfold construct
  generalize Construct.ofSymbol symbol = asked
  cases asked with
  | declare => exact agrees_declareVariable
  | assign => exact agrees_assign hrec
  | declareFrozen => exact agrees_declareFrozen hrec
  | increment | decrement => exact agrees_stepVariable _ _
  | concatenate => exact agrees_concatenate hrec
  | list => exact agrees_list hrec hint hp
  | dictionary => exact agrees_dictionary hrec hint hp
  | ifBranch => exact agrees_ifChain hrec
  | repeatWhile => exact agrees_repeatWhile hrec
  | forIn => exact agrees_forIn hrec hp
  | returning => exact agrees_returnValue hrec hp
  | selfReference => exact agrees_selfReference hp
  | enumValue => exact agrees_enumValue hp
  | instantiate => exact agrees_instantiate hrec hp
  | nothingness => exact agrees_nothingnessLiteral
  | isNothingness => exact agrees_isNothingness hrec
  | identical => exact agrees_identical hrec
  | superInitializer => exact agrees_superInitializer hrec hp
  | cast => exact agrees_cast hrec hp
  | unwrap => exact agrees_unwrap hrec hp
  | optionalChain => exact agrees_optionalChain hrec hp
  | classMethod => exact agrees_callClassMethod hrec
  | captureMethod => exact agrees_captureMethod hrec
  | invoke => exact agrees_invoke hrec
  | superMethod => exact agrees_callSuperMethod hrec hp
  | blockOpen => exact agrees_closure hrec
  | method method => exact agrees_call hrec method hp
  | elseIfBranch | elseBranch | blockClose | collectionEnd | dynamicClass =>
    exact agrees_noExpression ht

theorem agrees_expressionStep (hrec : rec.Agrees τ n) : (expressionStep rec).Agrees τ (n + 1) := by
  intro Γ token token' hint ht
  refine (agrees_setLine (τ.line_of_place ht.span)).bind_same fun _ ↦ ?_
  have hlexeme := ht.lexeme
  generalize token.lexeme = lexeme, token'.lexeme = lexeme' at hlexeme ⊢
  subst hlexeme
  cases lexeme with
  | string content => exact agrees_stringLiteral content
  | boolean value => exact agrees_booleanLiteral value
  | integer value => exact agrees_integerLiteral value
  | double bits => exact agrees_doubleLiteral bits
  | symbol value => exact agrees_symbolLiteral value
  | reference x => exact agrees_readVariable x ht.span
  | comment _ => exact agrees_fail (.renamed _) ht.span
  | argumentsOpen | argumentsClose => exact agrees_noExpression ht
  | identifier symbol =>
    exact .optional Iff.rfl (agrees_modifyFrame _) (agrees_construct hrec ht symbol hint)

/-- **Expressions are analysed alike**, wherever fewer tokens are left than the levels of nesting
that are allowed for. -/
theorem agrees_expression (fuel : Nat) : (expression fuel).Agrees τ fuel := by
  induction fuel with
  | zero => exact fun _ _ _ _ _ ↦ .zero
  | succ fuel ih => exact agrees_expressionStep ih

end Analysis

/-! ## Whole bodies -/

namespace Transcription

variable {τ : Transcription} {session session' : Session} {tokens tokens' : List Token}

/-- **A body and its transcription are analysed alike**, with fields and in sessions that
correspond. -/
theorem ends_analyse (Γ : Setting) {arguments arguments' : List Argument}
    {fields fields' : Option Scope} (hline : τ.line 1 1)
    (harguments : List.Forall₂ (Argument.Alike τ) arguments arguments')
    (hfields : Option.Rel (Scope.Alike τ Span.Anywhere) fields fields')
    (hsession : session.Alike τ session')
    (htokens : List.Forall₂ (Token.Alike τ) tokens tokens')
    (hnowhere : tokens = [] → τ.place .nowhere .nowhere) :
    τ.analysis.Ends (fun _ ↦ Eq) tokens.length (analyse Γ arguments fields session tokens)
      (analyse Γ arguments' fields' session' tokens') := by
  have hstart : State.Alike τ
      { cursor := .start tokens, assembler := .start, session, environment := .start fields,
        frame := {} }
      { cursor := .start tokens', assembler := .start, session := session',
        environment := .start fields', frame := {} } :=
    ⟨⟨.nil, htokens, fun _ ↦ hnowhere⟩, ⟨.nil, rfl, hline⟩, hsession, .start hfields, rfl⟩
  rw [analyse, analyse, ← htokens.length_eq]
  exact Analysis.agrees_body (Analysis.agrees_expression _) 0 harguments .nil _ _ hstart
    (Nat.lt_succ_self _)

/-- Where all names are kept, the arguments and the fields may be the same. -/
theorem ends_analyse_same (Γ : Setting) (arguments : List Argument) (fields : Option Scope)
    (hname : ∀ x, τ.name x = x) (hline : τ.line 1 1) (hsession : session.Alike τ session')
    (htokens : List.Forall₂ (Token.Alike τ) tokens tokens')
    (hnowhere : tokens = [] → τ.place .nowhere .nowhere) :
    τ.analysis.Ends (fun _ ↦ Eq) tokens.length (analyse Γ arguments fields session tokens)
      (analyse Γ arguments fields session' tokens') := by
  refine ends_analyse Γ hline ?_ ?_ hsession htokens hnowhere
  · exact List.forall₂_same.mpr fun a _ ↦ ⟨(hname a.name).symm, rfl⟩
  · cases fields with
    | none => exact .none
    | some s =>
      refine .some (List.forall₂_same.mpr fun v _ ↦ ?_)
      exact ⟨(hname v.name).symm, rfl, rfl, rfl, rfl, rfl, trivial⟩

end Transcription

end Pictograph
