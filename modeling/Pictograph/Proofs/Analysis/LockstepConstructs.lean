import Pictograph.Analysis.Expression
import Pictograph.Proofs.Analysis.Lockstep
import Pictograph.Proofs.Analysis.Touches
import Pictograph.Proofs.Scope.Evolution

/-!
# Constructs in lockstep

Every construct is a sequence of steps, so what the steps keep the constructs keep, if the analyses
of the expressions in them do. By induction on the levels of nesting the analyses of all expressions
do.

Four constructs are left out, which the laws say nothing about: the reference to the instance, calls
on the superclass, superinitializers and closures. They are taken as a hypothesis. The analysis of
the body of a closure starts anew, so it may be compared by something else than the analysis around
it; for that reason comparisons come in families.

## Main definitions

* `Recursion.Follows`: the analyses of expressions correspond.
* `Lockstep.Handles`: the four constructs correspond.

## Main results

* `Lockstep.Lawful.follows_construct`: every construct corresponds if the expressions in it do.
* `Lockstep.Lawful.follows_body`: bodies correspond if the expressions in them do.
* `Lockstep.follows_expression`: expressions correspond.
-/

namespace Pictograph

/-- The analyses of expressions correspond. -/
def Recursion.Follows (L : Lockstep) (rec : Recursion) : Prop :=
  ∀ Γ Γ' token hint, L.setting Γ Γ' → L.Follows (rec Γ token hint) (rec Γ' token hint)

/-! ## The fields stay in reach -/

namespace Environment

theorem isSome_fields_update (x : String) (f : Variable → Variable) (e : Environment) :
    (e.update x f).fields.isSome = e.fields.isSome := by
  rw [update]
  split
  · rw [fields_withLocals]
  · exact Option.isSome_map

theorem isSome_fields_shift (delta : Int) (withFields : Bool) (e : Environment) :
    (e.shift delta withFields).fields.isSome = e.fields.isSome := by
  rw [shift]
  dsimp only
  split
  · exact Option.isSome_map
  · rfl

theorem isSome_fields_settleEach (slots : List Slot) (e : Environment) :
    (slots.foldl settle e).fields.isSome = e.fields.isSome := by
  induction slots generalizing e with
  | nil => rfl
  | cons slot slots ih =>
    rw [List.foldl_cons, ih, settle]
    cases slot.storage with
    | frame => rw [fields_withLocals]
    | object => exact Option.isSome_map

theorem fields_of_pop? {e e' : Environment} {left : Scope} (h : e.pop? = some (left, e')) :
    e'.fields = e.fields := by
  rw [pop?] at h
  split at h <;> cases h
  rfl

end Environment

namespace Lockstep

open Analysis

/-- The constructs correspond that touch the instance or contain a body. -/
structure Handles (L : Lockstep) (rec : Recursion) : Prop where
  selfReference {Γ Γ'} (p : Span) : L.setting Γ Γ' →
    L.Follows (selfReference Γ p) (selfReference Γ' p)
  callSuperMethod {Γ Γ'} (p : Span) : L.setting Γ Γ' →
    L.Follows (callSuperMethod Γ rec p) (callSuperMethod Γ' rec p)
  superInitializer {Γ Γ'} (p : Span) : L.setting Γ Γ' →
    L.Follows (superInitializer Γ rec p) (superInitializer Γ' rec p)
  closure {Γ Γ'} : L.setting Γ Γ' → L.Follows (closure Γ rec) (closure Γ' rec)

namespace Lawful

variable {L : Lockstep} {α : Type} {Γ Γ' : Setting} {rec : Recursion} (hL : L.Lawful)

include hL

/-! ## Literals -/

theorem follows_stringLiteral (content : String) :
    L.Follows (stringLiteral content) (stringLiteral content) := by
  refine (hL.follows_intern _).bind fun index ↦ (hL.follows_emit rfl).bind fun _ ↦ ?_
  exact (hL.follows_emitNumber _).bind fun _ ↦ .pure _

theorem follows_booleanLiteral (value : Bool) :
    L.Follows (booleanLiteral value) (booleanLiteral value) :=
  (hL.follows_emit rfl).bind fun _ ↦ .pure _

theorem follows_integerLiteral (value : Int64) :
    L.Follows (integerLiteral value) (integerLiteral value) := by
  refine .ite ?_ ?_
  · exact (hL.follows_emit rfl).bind fun _ ↦ (hL.follows_emitWide _).bind fun _ ↦ .pure _
  · exact (hL.follows_emit rfl).bind fun _ ↦ (hL.follows_emitWord _).bind fun _ ↦ .pure _

theorem follows_doubleLiteral (bits : UInt64) :
    L.Follows (doubleLiteral bits) (doubleLiteral bits) :=
  (hL.follows_emit rfl).bind fun _ ↦ (hL.follows_emitWide _).bind fun _ ↦ .pure _

theorem follows_symbolLiteral (value : Symbol) :
    L.Follows (symbolLiteral value) (symbolLiteral value) :=
  (hL.follows_emit rfl).bind fun _ ↦ (hL.follows_emitWord _).bind fun _ ↦ .pure _

theorem follows_nothingnessLiteral : L.Follows nothingnessLiteral nothingnessLiteral :=
  (hL.follows_emit rfl).bind fun _ ↦ .pure _

theorem follows_noExpression (token : Token) :
    L.Follows (noExpression token) (noExpression token) :=
  hL.follows_fail _ _

/-! ## Operands, arguments and statements -/

section

variable (hΓ : L.setting Γ Γ') (hrec : rec.Follows L)

include hΓ hrec

theorem follows_operand : L.Follows (operand Γ rec) (operand Γ' rec) :=
  hL.follows_next.bind fun _ ↦ hrec _ _ _ _ hΓ

theorem follows_operandAndSpan : L.Follows (operandAndSpan Γ rec) (operandAndSpan Γ' rec) :=
  hL.follows_next.bind fun _ ↦ (hrec _ _ _ _ hΓ).bind fun _ ↦ .pure _

theorem follows_fitting (token : Token) (expected : Ty) :
    L.Follows (fitting Γ rec token expected) (fitting Γ' rec token expected) := by
  refine (hrec _ _ _ _ hΓ).bind fun found ↦ ?_
  rw [(hL.resembles hΓ).fits_eq, (hL.resembles hΓ).typeName_eq, (hL.resembles hΓ).typeName_eq]
  exact (hL.follows_require _ _ _).bind fun _ ↦ .pure _

theorem follows_operandFitting (expected : Ty) :
    L.Follows (operandFitting Γ rec expected) (operandFitting Γ' rec expected) :=
  hL.follows_next.bind fun _ ↦ hL.follows_fitting hΓ hrec _ _

theorem follows_operandsFitting (expected : List Ty) :
    L.Follows (operandsFitting Γ rec expected) (operandsFitting Γ' rec expected) := by
  induction expected with
  | nil => exact .pure ()
  | cons t expected ih => exact (hL.follows_operandFitting hΓ hrec t).bind fun _ ↦ ih

theorem follows_arguments (expected : List Ty) :
    L.Follows (arguments Γ rec expected) (arguments Γ' rec expected) := by
  refine (hL.follows_reading _).bind fun bracketed ↦ ?_
  refine (hL.follows_operandsFitting hΓ hrec _).bind fun _ ↦ .ite ?_ (.pure ())
  exact (hL.follows_reading _).bind fun _ ↦ .pure ()

theorem follows_callMember {m m' : Member} (hm : m.Resembles m') (receiver : Ty) (p : Span) :
    L.Follows (callMember Γ rec m receiver p) (callMember Γ' rec m' receiver p) := by
  rw [callMember, callMember, (hL.resembles hΓ).requireAccess_eq hm,
    Setting.Resembles.argumentTypes_eq hm, hm.result]
  refine (hL.follows_require _ _ _).bind fun _ ↦ ?_
  exact (hL.follows_arguments hΓ hrec _).bind fun _ ↦ .pure _

theorem follows_statement (token : Token) :
    L.Follows (statement Γ rec token) (statement Γ' rec token) := by
  refine .bind (hL.follows_modifyFrame fun _ ↦ rfl) fun _ ↦ (hrec _ _ _ _ hΓ).bind fun _ ↦ ?_
  exact follows_frame.bind fun f ↦ .ite (hL.follows_warn _ _) (.pure ())

theorem follows_statements : L.Follows (statements Γ rec) (statements Γ' rec) := by
  refine hL.follows_repeatUntil (fun _ ↦ ?_) ()
  refine hL.follows_next.bind fun token ↦ .ite (.pure _) ?_
  exact (hL.follows_statement hΓ hrec token).bind fun _ ↦ .pure _

/-! ## Values -/

omit hrec in
theorem follows_enumValue (p : Span) : L.Follows (enumValue Γ p) (enumValue Γ' p) := by
  have h := hL.resembles hΓ
  rw [enumValue, enumValue, h.dynamism_eq]
  refine hL.follows_reserve.bind fun opcode ↦ (hL.follows_annotated hΓ _).bind fun ⟨t, _⟩ ↦ ?_
  dsimp only
  rw [h.typeName_eq]
  refine (hL.follows_require _ _ _).bind fun _ ↦ (hL.follows_require _ _ _).bind fun _ ↦ ?_
  refine hL.follows_name.bind fun ⟨value, q⟩ ↦ ?_
  dsimp only
  rw [h.enumValue?_eq]
  refine (hL.follows_demand _ _ _).bind fun number ↦ .bind (.ite ?_ ?_) fun _ ↦ .pure _
  · exact (hL.follows_fillOpcode _ rfl).bind fun _ ↦ hL.follows_emitWord _
  · exact (hL.follows_fillOpcode _ rfl).bind fun _ ↦ hL.follows_emitWide _

theorem follows_isNothingness : L.Follows (isNothingness Γ rec) (isNothingness Γ' rec) :=
  (hL.follows_emit rfl).bind fun _ ↦ (hL.follows_operand hΓ hrec).bind fun _ ↦ .pure _

theorem follows_identical : L.Follows (identical Γ rec) (identical Γ' rec) := by
  refine (hL.follows_emit rfl).bind fun _ ↦ (hL.follows_operandFitting hΓ hrec _).bind fun _ ↦ ?_
  exact (hL.follows_operandFitting hΓ hrec _).bind fun _ ↦ .pure _

/-! ## Strings, collections and conversions -/

theorem follows_concatenate : L.Follows (concatenate Γ rec) (concatenate Γ' rec) := by
  refine (hL.follows_emit rfl).bind fun _ ↦ hL.follows_reserve.bind fun count ↦ ?_
  refine (hL.follows_operandFitting hΓ hrec _).bind fun _ ↦ ?_
  refine .bind (hL.follows_repeatUntil (fun strings ↦ ?_) 1) fun strings ↦
    (hL.follows_fill _ _).bind fun _ ↦ .pure _
  refine hL.follows_next.bind fun token ↦ .ite (.pure _) ?_
  exact (hL.follows_fitting hΓ hrec _ _).bind fun _ ↦ .pure _

omit hΓ hrec in
theorem follows_emptyElement (id : TypeId) (hint : Option Ty) (p : Span) :
    L.Follows (emptyElement id hint p) (emptyElement id hint p) := by
  unfold emptyElement
  split
  · exact .pure _
  · exact (hL.follows_warn _ _).bind fun _ ↦ .pure _

omit hrec in
theorem follows_collection {part part' : Token → Analysis Ty}
    (hpart : ∀ token, L.Follows (part token) (part' token)) {opcode : Opcode}
    (hop : opcode.isPlain) (id : TypeId) (hint : Option Ty) (p : Span) :
    L.Follows (collection Γ opcode id part hint p) (collection Γ' opcode id part' hint p) := by
  refine (hL.follows_emit hop).bind fun _ ↦ hL.follows_reserveCount.bind fun count ↦ ?_
  refine .bind (hL.follows_repeatUntil (fun common? ↦ ?_) none) fun common? ↦
    (hL.follows_fillCount _).bind fun _ ↦ ?_
  · refine hL.follows_next.bind fun token ↦ .ite (.pure _) ((hpart token).bind fun t ↦ ?_)
    rw [(hL.resembles hΓ).joinNext_eq]
    exact .pure _
  · cases common? with
    | some element => exact .pure _
    | none => exact (hL.follows_emptyElement id hint p).bind fun _ ↦ .pure _

theorem follows_list (hint : Option Ty) (p : Span) :
    L.Follows (list Γ rec hint p) (list Γ' rec hint p) :=
  hL.follows_collection hΓ (fun _ ↦ hrec _ _ _ _ hΓ) rfl _ hint p

theorem follows_dictionary (hint : Option Ty) (p : Span) :
    L.Follows (dictionary Γ rec hint p) (dictionary Γ' rec hint p) := by
  refine hL.follows_collection hΓ (fun key ↦ ?_) rfl _ hint p
  exact (hL.follows_fitting hΓ hrec _ _).bind fun _ ↦ hL.follows_operand hΓ hrec

theorem follows_cast (p : Span) : L.Follows (cast Γ rec p) (cast Γ' rec p) := by
  have h := hL.resembles hΓ
  refine hL.follows_reserve.bind fun opcode ↦ ?_
  refine (hL.follows_operandFitting hΓ hrec _).bind fun found ↦ ?_
  refine (hL.follows_annotated hΓ _).bind fun ⟨target, _⟩ ↦ ?_
  dsimp only
  rw [h.fits_eq, h.typeName_eq]
  refine .optional (hL.follows_warn _ _) ?_
  generalize target.kind = kind
  cases kind with
  | object id =>
    refine hL.follows_demand_bind (h.class? id) _ _ fun c c' hc ↦ ?_
    rw [h.hasWidestArguments_eq _ hc, hc.index]
    refine (hL.follows_require _ _ _).bind fun _ ↦ (hL.follows_fillOpcode _ rfl).bind fun _ ↦ ?_
    exact (hL.follows_emitNumber _).bind fun _ ↦ .pure _
  | protocol id =>
    refine hL.follows_demand_bind (h.protocol? id) _ _ fun q q' hq ↦ ?_
    rw [hq.index]
    refine (hL.follows_fillOpcode _ rfl).bind fun _ ↦ (hL.follows_emitNumber _).bind fun _ ↦ ?_
    exact .pure _
  | boolean | integer | symbol | double =>
    exact (hL.follows_fillOpcode _ rfl).bind fun _ ↦ .pure _
  | _ => exact (hL.follows_fail _ _).bind fun _ ↦ .pure _

theorem follows_unwrap (p : Span) : L.Follows (unwrap Γ rec p) (unwrap Γ' rec p) := by
  refine (hL.follows_emit rfl).bind fun _ ↦ (hL.follows_operand hΓ hrec).bind fun t ↦ ?_
  rw [(hL.resembles hΓ).typeName_eq]
  exact (hL.follows_require _ _ _).bind fun _ ↦ .pure _

/-! ## Calls and instances -/

theorem follows_call (method : Symbol) (p : Span) :
    L.Follows (call Γ rec method p) (call Γ' rec method p) := by
  have h := hL.resembles hΓ
  refine hL.follows_reserve.bind fun opcode ↦ ?_
  refine (hL.follows_operandAndSpan hΓ hrec).bind fun ⟨receiver, q⟩ ↦ ?_
  refine (hL.follows_require _ _ _).bind fun _ ↦ ?_
  dsimp only
  rw [h.dispatchType_eq, h.noSuchMethod_eq, h.typeName_eq]
  have hmethod := h.method? (dispatchType Γ receiver) method
  generalize (dispatchType Γ receiver).kind = kind
  cases kind with
  | protocol id =>
    refine hL.follows_demand_bind (h.protocol? id) _ _ fun r r' hr ↦ ?_
    refine hL.follows_demand_bind hmethod _ _ fun m m' hm ↦ ?_
    rw [hr.index, hm.slot]
    refine (hL.follows_fillOpcode _ rfl).bind fun _ ↦ (hL.follows_emitNumber _).bind fun _ ↦ ?_
    exact (hL.follows_emitNumber _).bind fun _ ↦ hL.follows_callMember hΓ hrec hm _ _
  | object id =>
    refine hL.follows_demand_bind hmethod _ _ fun m m' hm ↦ ?_
    rw [hm.slot]
    refine (hL.follows_fillOpcode _ rfl).bind fun _ ↦ (hL.follows_emitNumber _).bind fun _ ↦ ?_
    exact hL.follows_callMember hΓ hrec hm _ _
  | _ =>
    refine (hL.follows_demand _ _ _).bind fun operation ↦ ?_
    refine (hL.follows_fillOpcode _ rfl).bind fun _ ↦ ?_
    cases operation.operand? with
    | some t => exact (hL.follows_operandFitting hΓ hrec t).bind fun _ ↦ .pure _
    | none => exact .pure _

theorem follows_optionalChain (p : Span) :
    L.Follows (optionalChain Γ rec p) (optionalChain Γ' rec p) := by
  have h := hL.resembles hΓ
  refine (hL.follows_emit rfl).bind fun _ ↦ hL.follows_reserveCount.bind fun count ↦ ?_
  refine hL.follows_name.bind fun ⟨method, q⟩ ↦ (hL.follows_operand hΓ hrec).bind fun t ↦ ?_
  refine (hL.follows_require _ _ _).bind fun _ ↦ ?_
  dsimp only
  rw [h.noSuchMethod_eq]
  refine hL.follows_demand_bind (h.objectMethod? _ _) _ _ fun m m' hm ↦ ?_
  rw [hm.slot]
  refine (hL.follows_emitNumber _).bind fun _ ↦ (hL.follows_fillCount _).bind fun _ ↦ ?_
  exact (hL.follows_callMember hΓ hrec hm _ _).bind fun _ ↦ .pure _

theorem follows_callClassMethod : L.Follows (callClassMethod Γ rec) (callClassMethod Γ' rec) := by
  have h := hL.resembles hΓ
  refine (hL.follows_emit rfl).bind fun _ ↦ hL.follows_name.bind fun ⟨method, q⟩ ↦ ?_
  rw [h.dynamism_eq]
  refine (hL.follows_annotated hΓ _).bind fun ⟨annotated, dynamic⟩ ↦ ?_
  dsimp only
  rw [h.typeName_eq, h.noSuchMethod_eq]
  refine .optional (hL.follows_warn _ _) ?_
  refine hL.follows_demand_bind (h.classOf? _) _ _ fun c c' hc ↦ ?_
  rw [show classWord c' dynamic = classWord c dynamic by rw [classWord, classWord, hc.index]]
  refine (hL.follows_emitWord _).bind fun _ ↦ ?_
  refine hL.follows_demand_bind (h.classMethod? _ _) _ _ fun m m' hm ↦ ?_
  rw [hm.slot]
  exact (hL.follows_emitNumber _).bind fun _ ↦ hL.follows_callMember hΓ hrec hm _ _

theorem follows_captureMethod : L.Follows (captureMethod Γ rec) (captureMethod Γ' rec) := by
  have h := hL.resembles hΓ
  refine hL.follows_name.bind fun ⟨method, q⟩ ↦ (hL.follows_emit rfl).bind fun _ ↦ ?_
  refine (hL.follows_operandAndSpan hΓ hrec).bind fun ⟨receiver, p⟩ ↦ ?_
  refine (hL.follows_require _ _ _).bind fun _ ↦ ?_
  rw [h.noSuchMethod_eq]
  refine hL.follows_demand_bind (h.objectMethod? _ _) _ _ fun m m' hm ↦ ?_
  rw [hm.slot, h.requireAccess_eq hm, Setting.Resembles.argumentTypes_eq hm, hm.result]
  refine (hL.follows_emitNumber _).bind fun _ ↦ ?_
  exact (hL.follows_require _ _ _).bind fun _ ↦ .pure _

theorem follows_invoke : L.Follows (invoke Γ rec) (invoke Γ' rec) := by
  refine (hL.follows_emit rfl).bind fun _ ↦ ?_
  refine (hL.follows_operandAndSpan hΓ hrec).bind fun ⟨t, p⟩ ↦ ?_
  dsimp only
  rw [(hL.resembles hΓ).typeName_eq]
  refine (hL.follows_require _ _ _).bind fun _ ↦ ?_
  exact (hL.follows_arguments hΓ hrec _).bind fun _ ↦ .pure _

theorem follows_instantiate (p : Span) :
    L.Follows (instantiate Γ rec p) (instantiate Γ' rec p) := by
  have h := hL.resembles hΓ
  refine (hL.follows_emit rfl).bind fun _ ↦ ?_
  rw [h.dynamism_eq]
  refine (hL.follows_annotated hΓ _).bind fun ⟨t, dynamic⟩ ↦ ?_
  dsimp only
  rw [h.typeName_eq]
  refine hL.follows_demand_bind (h.classOf? _) _ _ fun c c' hc ↦ ?_
  rw [show classWord c' dynamic = classWord c dynamic by rw [classWord, classWord, hc.index]]
  refine (hL.follows_require _ _ _).bind fun _ ↦ (hL.follows_emitWord _).bind fun _ ↦ ?_
  refine hL.follows_name.bind fun ⟨initializer, q⟩ ↦ ?_
  refine hL.follows_demand_bind (h.lookupInitializer? _ _) _ _ fun m m' hm ↦ ?_
  rw [hm.slot, hm.isRequired, hm.mayFail, h.requireAccess_eq hm,
    Setting.Resembles.argumentTypes_eq hm]
  refine (hL.follows_require _ _ _).bind fun _ ↦ (hL.follows_emitNumber _).bind fun _ ↦ ?_
  refine (hL.follows_require _ _ _).bind fun _ ↦ ?_
  exact (hL.follows_arguments hΓ hrec _).bind fun _ ↦ .pure _

theorem follows_returnValue (p : Span) :
    L.Follows (returnValue Γ rec p) (returnValue Γ' rec p) := by
  have h := hL.resembles hΓ
  refine follows_frame.bind fun _ ↦ (hL.follows_require _ _ _).bind fun _ ↦ ?_
  refine .bind (hL.follows_modifyFrame fun _ ↦ rfl) fun _ ↦ ?_
  rw [h.result]
  have hinitializer := rel_of_map_eq h.initializer?
  generalize Γ.initializer? = i?, Γ'.initializer? = i?' at hinitializer ⊢
  cases hinitializer with
  | @some initializer initializer' hi =>
    have hmayFail : initializer'.mayFail = initializer.mayFail := congrArg (·.mayFail) hi
    dsimp only
    rw [hmayFail]
    refine (hL.follows_require _ _ _).bind fun _ ↦ (hL.follows_emit rfl).bind fun _ ↦ ?_
    exact (hL.follows_operandFitting hΓ hrec _).bind fun _ ↦ .pure _
  | none =>
    refine (hL.follows_require _ _ _).bind fun _ ↦ (hL.follows_emit rfl).bind fun _ ↦ ?_
    refine (hL.follows_operandFitting hΓ hrec _).bind fun _ ↦ ?_
    exact .bind (hL.follows_modifyFrame fun _ ↦ rfl) fun _ ↦ .pure _

/-! ## Variables -/

omit hΓ hrec in
/-- A name has to refer to a variable. -/
theorem follows_found_bind {x : String} {cause : Cause} {p : Span}
    {f f' : Storage × Variable → Analysis α}
    (h : ∀ storage v, L.reaches storage → L.Follows (f (storage, v)) (f' (storage, v))) :
    L.Follows (resolve? x >>= fun found ↦ demand found cause p >>= f)
      (resolve? x >>= fun found ↦ demand found cause p >>= f') :=
  hL.follows_resolve?_bind (fun _ _ hs ↦ .error (hL.failed hs)) h

omit hΓ hrec in
theorem follows_readVariable (x : String) (p : Span) :
    L.Follows (readVariable x p) (readVariable x p) := by
  refine hL.follows_found_bind fun storage v hstorage ↦ (hL.follows_lift _).bind fun _ ↦ ?_
  exact (hL.follows_emitAccess _ _ hstorage).bind fun _ ↦ .pure _

omit hrec in
theorem follows_declareVariable : L.Follows (declareVariable Γ) (declareVariable Γ') := by
  refine hL.follows_variableName.bind fun ⟨x, p⟩ ↦ ?_
  refine (hL.follows_requireUndeclared _ _).bind fun _ ↦ ?_
  rw [(hL.resembles hΓ).dynamism_eq]
  refine (hL.follows_annotated hΓ _).bind fun _ ↦ (hL.follows_newSlot hΓ _).bind fun _ ↦ ?_
  exact (hL.follows_declare _).bind fun _ ↦ .pure _

theorem follows_storeNew (x : String) (p : Span) :
    L.Follows (storeNew Γ rec x p) (storeNew Γ' rec x p) := by
  refine (hL.follows_emit rfl).bind fun _ ↦ (hL.follows_newSlot hΓ _).bind fun slot ↦ ?_
  refine (hL.follows_emitNumber _).bind fun _ ↦ (hL.follows_operand hΓ hrec).bind fun type ↦ ?_
  exact .pure _

theorem follows_assign : L.Follows (assign Γ rec) (assign Γ' rec) := by
  refine hL.follows_variableName.bind fun ⟨x, p⟩ ↦ ?_
  refine hL.follows_resolve?_bind ?_ fun storage v hstorage ↦ ?_
  · refine (hL.follows_storeNew hΓ hrec x p).bind fun v ↦ ?_
    exact (hL.follows_declare v).bind fun _ ↦ .pure _
  · refine (hL.follows_lift _).bind fun mutated ↦ ?_
    refine .bind (hL.follows_modifyEnvironment (Environment.isSome_fields_update _ _)) fun _ ↦ ?_
    refine (hL.follows_emitAccess _ _ hstorage).bind fun _ ↦ ?_
    refine (hL.follows_operandFitting hΓ hrec _).bind fun _ ↦ ?_
    refine (hL.follows_modifyEnvironment ?_).bind fun _ ↦ .pure _
    exact Environment.isSome_fields_update _ _

theorem follows_declareFrozen : L.Follows (declareFrozen Γ rec) (declareFrozen Γ' rec) := by
  refine hL.follows_variableName.bind fun ⟨x, p⟩ ↦ ?_
  refine (hL.follows_requireUndeclared _ _).bind fun _ ↦ ?_
  refine (hL.follows_storeNew hΓ hrec x p).bind fun v ↦ ?_
  exact (hL.follows_declare _).bind fun _ ↦ .pure _

omit hrec in
theorem follows_stepVariable (construct : Construct) (action : Access) :
    L.Follows (stepVariable Γ construct action) (stepVariable Γ' construct action) := by
  have h := hL.resembles hΓ
  refine hL.follows_variableName.bind fun ⟨x, p⟩ ↦ ?_
  refine hL.follows_found_bind fun storage v hstorage ↦ (hL.follows_lift _).bind fun _ ↦ ?_
  rw [h.fits_eq, h.typeName_eq]
  refine (hL.follows_require _ _ _).bind fun _ ↦ (hL.follows_lift _).bind fun mutated ↦ ?_
  refine .bind (hL.follows_modifyEnvironment (Environment.isSome_fields_update _ _)) fun _ ↦ ?_
  exact (hL.follows_emitAccess _ _ hstorage).bind fun _ ↦ .pure _

/-! ## Blocks, branches and loops -/

omit hΓ hrec in
theorem follows_enterConditional (withFields : Bool) :
    L.Follows (enterConditional withFields) (enterConditional withFields) := by
  refine .look fun _ _ _ ↦ .optional (hL.follows_throw _) ?_
  exact hL.follows_modifyEnvironment (Environment.isSome_fields_shift 1 withFields)

theorem follows_conditionalBlock :
    L.Follows (conditionalBlock Γ rec) (conditionalBlock Γ' rec) := by
  rw [conditionalBlock, conditionalBlock, (hL.resembles hΓ).isStatic]
  refine (hL.follows_enterConditional _).bind fun _ ↦ ?_
  refine .bind (hL.follows_modifyFrame fun _ ↦ rfl) fun _ ↦ (hL.follows_reading _).bind fun _ ↦ ?_
  refine hL.follows_reserveCount.bind fun count ↦ (hL.follows_statements hΓ hrec).bind fun _ ↦ ?_
  refine (hL.follows_fillCount _).bind fun _ ↦ ?_
  refine .lookAt fun s z hs ↦ ?_
  have hleft := hL.keeps_environment hs
    (Environment.isSome_fields_shift (-1) (!Γ.isStatic) s.environment)
  exact .ok (hL.keeps_frame hleft rfl)

omit hrec in
/-- Analyses that correspond do so in scopes of their own. -/
theorem follows_inScope {m m' : Analysis α} (hm : L.Follows m m') :
    L.Follows (inScope Γ m) (inScope Γ' m') := by
  refine .bind (hL.follows_modifyEnvironment fun _ ↦ rfl) fun _ ↦ hm.bind fun a ↦ ?_
  refine .lookAt fun s z hs ↦ ?_
  dsimp only
  cases hpop : s.environment.pop? with
  | none => exact .ok hs
  | some popped =>
    obtain ⟨left, environment⟩ := popped
    have hfields := congrArg Option.isSome (Environment.fields_of_pop? hpop)
    exact ((hL.follows_recommendFrozen _ hΓ).bind fun _ ↦ .pure a) _ z
      (hL.keeps_environment hs hfields)

theorem follows_condition : L.Follows (condition Γ rec) (condition Γ' rec) := by
  refine (hL.follows_accepts _).bind fun _ ↦ .ite ?_ ?_
  · refine hL.follows_variableName.bind fun ⟨x, p⟩ ↦ ?_
    refine (hL.follows_requireUndeclared _ _).bind fun _ ↦ (hL.follows_emit rfl).bind fun _ ↦ ?_
    refine (hL.follows_newSlot hΓ _).bind fun slot ↦ (hL.follows_emitNumber _).bind fun _ ↦ ?_
    refine follows_here.bind fun q ↦ (hL.follows_operand hΓ hrec).bind fun t ↦ ?_
    exact (hL.follows_require _ _ _).bind fun _ ↦ hL.follows_declare _
  · exact (hL.follows_operandFitting hΓ hrec _).bind fun _ ↦ .pure _

theorem follows_branch : L.Follows (branch Γ rec) (branch Γ' rec) :=
  hL.follows_inScope hΓ ((hL.follows_condition hΓ hrec).bind fun _ ↦
    hL.follows_conditionalBlock hΓ hrec)

theorem follows_ifChain : L.Follows (ifChain Γ rec) (ifChain Γ' rec) := by
  refine (hL.follows_emit rfl).bind fun _ ↦ hL.follows_reserveCount.bind fun count ↦ ?_
  refine (hL.follows_branch hΓ hrec).bind fun first ↦ ?_
  refine .bind (hL.follows_repeatUntil (fun branches ↦ ?_) _) fun conditional ↦ ?_
  · refine (hL.follows_accepts _).bind fun _ ↦ .ite ?_ (.pure _)
    refine (hL.follows_emit rfl).bind fun _ ↦ ?_
    exact (hL.follows_branch hΓ hrec).bind fun _ ↦ .pure _
  refine (hL.follows_accepts _).bind fun _ ↦ .ite ?_ ?_
  · refine (hL.follows_emit rfl).bind fun _ ↦ ?_
    refine .bind (hL.follows_inScope hΓ (hL.follows_conditionalBlock hΓ hrec)) fun last ↦ ?_
    refine (hL.follows_fillCount _).bind fun _ ↦ ?_
    refine (hL.follows_modifyEnvironment ?_).bind fun _ ↦ .pure _
    exact Environment.isSome_fields_settleEach _
  · exact (hL.follows_fillCount _).bind fun _ ↦ .pure _

theorem follows_repeatWhile : L.Follows (repeatWhile Γ rec) (repeatWhile Γ' rec) := by
  refine (hL.follows_emit rfl).bind fun _ ↦ (hL.follows_operandFitting hΓ hrec _).bind fun _ ↦ ?_
  exact .bind (hL.follows_inScope hΓ (hL.follows_conditionalBlock hΓ hrec)) fun _ ↦ .pure _

theorem follows_forIn (p : Span) : L.Follows (forIn Γ rec p) (forIn Γ' rec p) := by
  have h := hL.resembles hΓ
  refine hL.follows_reserve.bind fun opcode ↦ hL.follows_variableName.bind fun ⟨x, q⟩ ↦ ?_
  refine .bind (hL.follows_inScope hΓ ?_) fun _ ↦ .pure _
  refine (hL.follows_newSlot hΓ _).bind fun slot ↦ (hL.follows_emitNumber _).bind fun _ ↦ ?_
  refine (hL.follows_newSlot hΓ _).bind fun hidden ↦ (hL.follows_emitNumber _).bind fun _ ↦ ?_
  refine (hL.follows_operandFitting hΓ hrec _).bind fun t ↦ ?_
  rw [h.elementType?_eq, h.typeName_eq]
  refine (hL.follows_demand _ _ _).bind fun element ↦ (hL.follows_fillOpcode _ rfl).bind fun _ ↦ ?_
  exact (hL.follows_declare _).bind fun _ ↦ hL.follows_conditionalBlock hΓ hrec

/-! ## Bodies -/

omit hrec in
theorem follows_declareArgument (p : Span) (a : Argument) :
    L.Follows (declareArgument Γ p a) (declareArgument Γ' p a) :=
  (hL.follows_newSlot hΓ _).bind fun _ ↦ hL.follows_declare _

omit hrec in
theorem follows_takeOver (p : Span) (captured : List Variable) (outerSlots : Nat) :
    L.Follows (takeOver Γ p captured outerSlots) (takeOver Γ' p captured outerSlots) := by
  refine follows_frame.bind fun f ↦ .ite ?_ (.pure _)
  refine .bind (.forM _ fun v ↦ .look fun _ _ _ ↦ .ite ?_ (.pure _)) fun _ ↦ ?_
  · exact (hL.follows_requireSlot _ p hΓ).bind fun _ ↦ hL.follows_declare _
  · exact .bind (hL.follows_modifyFrame fun _ ↦ rfl) fun _ ↦ .pure _

omit hΓ hrec in
theorem follows_skipBody : L.Follows skipBody skipBody := by
  refine hL.follows_repeatUntil (fun depth ↦ ?_) 0
  exact hL.follows_next.bind fun token ↦ .ite (.pure _) (.ite (.pure _) (.pure _))

omit hL hΓ hrec in
theorem follows_deadStatement? : L.Follows deadStatement? deadStatement? :=
  follows_frame.bind fun _ ↦ .ite (.look fun _ _ _ ↦ .pure _) (.pure _)

theorem follows_bodyStatements : L.Follows (bodyStatements Γ rec) (bodyStatements Γ' rec) := by
  rw [bodyStatements, bodyStatements, (hL.resembles hΓ).compilesDeadCode]
  refine hL.follows_repeatUntil (fun reported ↦ ?_) false
  refine hL.follows_next.bind fun token ↦ .ite (.pure _) ?_
  refine (hL.follows_statement hΓ hrec token).bind fun _ ↦ .ite (.pure _) ?_
  refine follows_deadStatement?.bind fun dead? ↦ ?_
  cases dead? with
  | none => exact .pure _
  | some dead =>
    refine (hL.follows_warn _ _).bind fun _ ↦ .ite (.pure _) ?_
    exact hL.follows_skipBody.bind fun _ ↦ .pure _

omit hrec in
theorem follows_leaveBody (firstTaken outerSlots : Nat) (p : Span) :
    L.Follows (leaveBody Γ firstTaken outerSlots p) (leaveBody Γ' firstTaken outerSlots p) := by
  have h := hL.resembles hΓ
  have hinitializer : Γ'.initializer?.isNone = Γ.initializer?.isNone := by
    rw [← Option.not_isSome, h.isSome_initializer?, Option.not_isSome]
  rw [leaveBody, leaveBody, h.result, hinitializer, h.hasSuperclass_eq]
  refine .look fun _ _ _ ↦ (hL.follows_recommendFrozen _ hΓ).bind fun _ ↦ ?_
  refine follows_frame.bind fun _ ↦ (hL.follows_require _ _ _).bind fun _ ↦ ?_
  refine (hL.follows_requireComplete hΓ p).bind fun _ ↦ follows_frame.bind fun _ ↦ ?_
  exact (hL.follows_require _ _ _).bind fun _ ↦ follows_frame.bind fun _ ↦ .pure _

/-- **Bodies correspond** if the expressions in them do. -/
theorem follows_body (arguments : List Argument) (captured : List Variable) (outerSlots : Nat) :
    L.Follows (body Γ rec arguments captured outerSlots)
      (body Γ' rec arguments captured outerSlots) := by
  refine follows_here.bind fun p ↦ ?_
  refine .bind (.forM _ fun a ↦ hL.follows_declareArgument hΓ p a) fun _ ↦ ?_
  refine (hL.follows_takeOver hΓ p captured outerSlots).bind fun first ↦ ?_
  exact (hL.follows_bodyStatements hΓ hrec).bind fun _ ↦ hL.follows_leaveBody hΓ _ _ _

omit hrec in
theorem follows_closureArguments : L.Follows (closureArguments Γ) (closureArguments Γ') := by
  refine hL.follows_repeatUntil (fun arguments ↦ ?_) []
  refine (hL.follows_reading _).bind fun x? ↦ ?_
  cases x? with
  | none => exact .pure _
  | some x =>
    dsimp only
    rw [(hL.resembles hΓ).dynamism_eq]
    exact (hL.follows_annotated hΓ _).bind fun _ ↦ .pure _

omit hrec in
theorem follows_closureResult : L.Follows (closureResult Γ) (closureResult Γ') := by
  rw [closureResult, closureResult, (hL.resembles hΓ).dynamism_eq]
  refine (hL.follows_reading _).bind fun arrow? ↦ .ite ?_ (.pure _)
  exact (hL.follows_annotated hΓ _).bind fun _ ↦ .pure _

/-! ## The instance, superclasses and closures

What the laws leave out corresponds if the instructions do that they say nothing about. -/

omit hrec in
theorem follows_selfReference (p : Span)
    (htouch : ∀ t : Ty, L.Follows (do useSelf; emit .selfReference; return t)
      (do useSelf; emit .selfReference; return t)) :
    L.Follows (selfReference Γ p) (selfReference Γ' p) := by
  have h := hL.resembles hΓ
  rw [selfReference, selfReference, h.isStatic, h.isSome_initializer?, h.hasSuperclass_eq,
    h.selfType]
  refine (hL.follows_require _ _ _).bind fun _ ↦ follows_frame.bind fun _ ↦ ?_
  refine (hL.follows_require _ _ _).bind fun _ ↦ (hL.follows_requireComplete hΓ p).bind fun _ ↦ ?_
  exact htouch _

theorem follows_superInitializer (p : Span)
    (hemit : L.Follows (emit .superInitializer) (emit .superInitializer)) :
    L.Follows (superInitializer Γ rec p) (superInitializer Γ' rec p) := by
  have h := hL.resembles hΓ
  rw [superInitializer, superInitializer, h.isSome_initializer?, h.selfType]
  refine (hL.follows_require _ _ _).bind fun _ ↦ ?_
  refine hL.follows_demand_bind h.superclass? _ _ fun c c' hc ↦ ?_
  refine follows_frame.bind fun _ ↦ (hL.follows_require _ _ _).bind fun _ ↦ ?_
  refine follows_frame.bind fun _ ↦ (hL.follows_require _ _ _).bind fun _ ↦ ?_
  rw [hc.index, hc.selfType, h.typeName_eq]
  refine (hL.follows_requireComplete hΓ p).bind fun _ ↦ hemit.bind fun _ ↦ ?_
  refine (hL.follows_emitNumber _).bind fun _ ↦ hL.follows_name.bind fun ⟨initializer, q⟩ ↦ ?_
  refine hL.follows_demand_bind (h.lookupInitializer? _ _) _ _ fun m m' hm ↦ ?_
  rw [hm.slot, h.requireAccess_eq hm, Setting.Resembles.argumentTypes_eq hm]
  refine (hL.follows_emitNumber _).bind fun _ ↦ (hL.follows_require _ _ _).bind fun _ ↦ ?_
  refine (hL.follows_arguments hΓ hrec _).bind fun _ ↦ ?_
  exact .bind (hL.follows_modifyFrame fun _ ↦ rfl) fun _ ↦ .pure _

omit hL hΓ hrec in
/-- Analyses in lockstep are so in frames of their own, where nothing is kept of the frame around
them. -/
theorem follows_inFrame {m m' : Analysis α}
    (henter : ∀ s z, L.state s z →
      L.state { s with environment := .start s.environment.fields, frame := {} } z)
    (hleave : ∀ (s t : State) z, L.state t z → L.state
      { t with
        environment := { s.environment with fields := t.environment.fields }
        frame := s.frame } z)
    (hm : L.Follows m m') : L.Follows (inFrame m) (inFrame m') := by
  intro s z hs
  have hinner := hm _ z (henter s z hs)
  rw [inFrame_eq, inFrame_eq]
  dsimp only at hinner ⊢
  generalize m _ = r, m' _ = r' at hinner ⊢
  cases hinner with
  | ok ht => exact .ok (hleave s _ _ ht)
  | error ht => exact .error ht
  | excused he => exact .excused he

theorem follows_closure
    (hown : ∀ result, L.setting
      { Γ with result, initializer? := none, options := Γ.options.withDeadCode true }
      { Γ' with result, initializer? := none, options := Γ'.options.withDeadCode true })
    (hemit : L.Follows (emit .closure) (emit .closure)) (huse : L.Follows useSelf useSelf)
    (henter : ∀ s z, L.state s z →
      L.state { s with environment := .start s.environment.fields, frame := {} } z)
    (hleave : ∀ (s t : State) z, L.state t z → L.state
      { t with
        environment := { s.environment with fields := t.environment.fields }
        frame := s.frame } z) :
    L.Follows (closure Γ rec) (closure Γ' rec) := by
  refine (hL.follows_closureArguments hΓ).bind fun arguments ↦ ?_
  refine (hL.follows_closureResult hΓ).bind fun result ↦ hemit.bind fun _ ↦ ?_
  refine hL.follows_reserve.bind fun slots ↦ hL.follows_reserveCount.bind fun count ↦ ?_
  refine .look fun _ _ _ ↦ follows_frame.bind fun f ↦ ?_
  have hbody := hL.follows_body (hown result) hrec
  refine (follows_inFrame henter hleave (hbody _ _ _)).bind fun summary ↦ ?_
  refine (hL.follows_fillCount _).bind fun _ ↦ ?_
  have hend : L.Follows
      (do emitNumber f.slotCount; fill slots (.ofNat summary.slotCount)
          return Ty.callable result (arguments.map (·.type)))
      (do emitNumber f.slotCount; fill slots (.ofNat summary.slotCount)
          return Ty.callable result (arguments.map (·.type))) :=
    (hL.follows_emitNumber _).bind fun _ ↦ (hL.follows_fill _ _).bind fun _ ↦ .pure _
  refine .ite (huse.bind fun _ ↦ ?_) ?_
  · exact (hL.follows_emitWord _).bind fun _ ↦ hend
  · exact (hL.follows_emitWord _).bind fun _ ↦ hend

/-! ## Expressions -/

/-- **Every construct corresponds** if the expressions in it do. -/
theorem follows_construct (hhandles : L.Handles rec) (token : Token) (symbol : Symbol)
    (hint : Option Ty) :
    L.Follows (construct Γ rec token symbol hint) (construct Γ' rec token symbol hint) := by
  unfold construct
  generalize Construct.ofSymbol symbol = asked
  cases asked with
  | declare => exact hL.follows_declareVariable hΓ
  | assign => exact hL.follows_assign hΓ hrec
  | declareFrozen => exact hL.follows_declareFrozen hΓ hrec
  | increment | decrement => exact hL.follows_stepVariable hΓ _ _
  | concatenate => exact hL.follows_concatenate hΓ hrec
  | list => exact hL.follows_list hΓ hrec hint _
  | dictionary => exact hL.follows_dictionary hΓ hrec hint _
  | ifBranch => exact hL.follows_ifChain hΓ hrec
  | repeatWhile => exact hL.follows_repeatWhile hΓ hrec
  | forIn => exact hL.follows_forIn hΓ hrec _
  | returning => exact hL.follows_returnValue hΓ hrec _
  | selfReference => exact hhandles.selfReference _ hΓ
  | enumValue => exact hL.follows_enumValue hΓ _
  | instantiate => exact hL.follows_instantiate hΓ hrec _
  | nothingness => exact hL.follows_nothingnessLiteral
  | isNothingness => exact hL.follows_isNothingness hΓ hrec
  | identical => exact hL.follows_identical hΓ hrec
  | superInitializer => exact hhandles.superInitializer _ hΓ
  | cast => exact hL.follows_cast hΓ hrec _
  | unwrap => exact hL.follows_unwrap hΓ hrec _
  | optionalChain => exact hL.follows_optionalChain hΓ hrec _
  | classMethod => exact hL.follows_callClassMethod hΓ hrec
  | captureMethod => exact hL.follows_captureMethod hΓ hrec
  | invoke => exact hL.follows_invoke hΓ hrec
  | superMethod => exact hhandles.callSuperMethod _ hΓ
  | blockOpen => exact hhandles.closure hΓ
  | method method => exact hL.follows_call hΓ hrec method _
  | elseIfBranch | elseBranch | blockClose | collectionEnd | dynamicClass =>
    exact hL.follows_noExpression token

end

theorem follows_expressionStep (hrec : rec.Follows L) (hhandles : L.Handles rec) :
    (expressionStep rec).Follows L := by
  intro Γ Γ' token hint hΓ
  refine (hL.follows_setLine _).bind fun _ ↦ ?_
  generalize token.lexeme = lexeme
  cases lexeme with
  | string content => exact hL.follows_stringLiteral content
  | boolean value => exact hL.follows_booleanLiteral value
  | integer value => exact hL.follows_integerLiteral value
  | double bits => exact hL.follows_doubleLiteral bits
  | symbol value => exact hL.follows_symbolLiteral value
  | reference x => exact hL.follows_readVariable x _
  | comment _ => exact hL.follows_fail _ _
  | argumentsOpen | argumentsClose => exact hL.follows_noExpression token
  | identifier symbol =>
    exact .optional (hL.follows_modifyFrame fun _ ↦ rfl)
      (hL.follows_construct hΓ hrec hhandles token symbol hint)

end Lawful

/-- **Expressions correspond**, for every comparison of a family, if the constructs do that the laws
say nothing about. -/
theorem follows_expression {ι : Type} {L : ι → Lockstep} (hL : ∀ i, (L i).Lawful)
    (hhandles : ∀ rec : Recursion, (∀ i, rec.Follows (L i)) → ∀ i, (L i).Handles rec) (fuel : Nat) :
    ∀ i, (expression fuel).Follows (L i) := by
  induction fuel with
  | zero => exact fun i _ _ _ _ _ ↦ (hL i).follows_throw _
  | succ fuel ih => exact fun i ↦ (hL i).follows_expressionStep (ih i) (hhandles _ ih i)

end Lockstep

end Pictograph
