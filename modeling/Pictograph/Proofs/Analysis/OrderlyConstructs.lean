import Pictograph.Analysis.Expression
import Pictograph.Proofs.Analysis.Orderly

/-!
# Every construct is orderly

Each construct fills the words it reserves, the innermost first, and declares variables only in
slots it asked for, if the expressions inside it do. Each of them is followed through its text once.
Expressions are nested no deeper than the fuel, so by induction on it all of them are orderly.

## Main results

* `Analysis.orderly_expression`: every expression is orderly.
* `Analysis.orderly_body`: every body is orderly.
-/

namespace Pictograph

/-- All expressions are orderly, wherever they are analysed. -/
def Recursion.Orderly (rec : Recursion) : Prop :=
  ∀ Γ token hint s, Pictograph.Orderly [] [] (rec Γ token hint) s

/-! ## Slots of variables in reach -/

namespace Environment

variable {e e' : Environment}

/-- No slot is added or lost while variables only evolve. -/
theorem slots_of_grows {n : Nat} (h : e.Grows n n e') : e'.slots = e.slots := by
  obtain ⟨old, new, he, ho, hn, -⟩ := h.current
  have hnew : new = [] := List.eq_nil_iff_forall_not_mem.mpr fun v hv ↦
    Nat.not_lt.mpr (hn v hv).1 (hn v hv).2.1
  have hcurrent : e'.current.declared.map (·.slot) = e.current.declared.map (·.slot) := by
    rw [he, hnew, List.append_nil, map_slot_of_evolves ho]
  rw [slots, slots, locals, locals, List.flatMap_cons, List.flatMap_cons, List.map_append,
    List.map_append, hcurrent, map_slot_of_scopes h.outer]

theorem slots_shift (delta : Int) (withFields : Bool) :
    (e.shift delta withFields).slots = e.slots := by
  have hl : (e.shift delta withFields).locals.flatMap (·.declared)
      = (e.locals.flatMap (·.declared)).map (·.shift delta) := by
    have hm : (e.shift delta withFields).locals = e.locals.map (·.shift delta) := rfl
    rw [hm, List.map_flatMap, List.flatMap_map]
    rfl
  rw [slots, hl, List.map_map]
  exact List.map_congr_left fun v _ ↦ Variable.shift_slot delta v

/-- Leaving a block forgets slots. -/
theorem slots_of_pop? {s : Scope} (h : e.pop? = some (s, e')) :
    e'.slots.Sublist e.slots := by
  obtain ⟨current, _ | ⟨s', outer⟩, fields⟩ := e
  · cases h
  · cases h
    exact (List.sublist_append_right _ _).map _

end Environment

namespace Analysis

variable {α β : Type} {Γ : Setting} {rec : Recursion} {s : State} {span : Span} {os ps : List Nat}

/-! ## Steps -/

theorem orderly_reading {r : Reading α} (h : NeverMisfills r) : Orderly [] [] (reading r) s := by
  have hm (s : State) : ∃ cursor, final (reading r s) = { s with cursor } := by
    unfold reading
    split
    · exact ⟨_, rfl⟩
    · exact ⟨_, rfl⟩
  refine .aside ⟨⟨fun s ↦ ?_, fun s s' he ↦ ?_⟩, fun s ↦ ?_, fun s ↦ ?_⟩
  · obtain ⟨cursor, hm⟩ := hm s
    rw [hm]
  · unfold reading at he
    split at he
    · cases he
    · next hr =>
      cases he
      exact h _ _ hr
  · obtain ⟨cursor, hm⟩ := hm s
    rw [hm]
  · obtain ⟨cursor, hm⟩ := hm s
    rw [hm]

theorem orderly_next : Orderly [] [] next s := orderly_reading Reading.neverMisfills_next

theorem orderly_name : Orderly [] [] name s := orderly_reading Reading.neverMisfills_name

theorem orderly_variableName : Orderly [] [] variableName s :=
  orderly_reading Reading.neverMisfills_variableName

theorem orderly_accepts {construct : Construct} : Orderly [] [] (accepts construct) s := by
  rw [accepts, map_eq_pure_bind]
  exact (orderly_reading (Reading.neverMisfills_accept _)).step fun _ _ _ ↦ .pure _

theorem orderly_annotated {dynamism : Dynamism} : Orderly [] [] ( annotation Γ dynamism) s :=
  orderly_reading (Γ.catalogue.neverMisfills_annotated _ _ _)

theorem orderly_get : Orderly [] [] (get : Analysis State) s :=
  .keeps (fun _ ↦ rfl) fun _ ↦ rfl

theorem orderly_frame : Orderly [] [] frame s :=
  .keeps (fun _ ↦ rfl) fun _ ↦ rfl

theorem orderly_here : Orderly [] [] here s :=
  .keeps (fun _ ↦ rfl) fun _ ↦ rfl

theorem orderly_warn {remark : Remark} : Orderly [] [] (warn remark span) s :=
  .keeps (fun _ ↦ rfl) fun _ ↦ rfl

theorem orderly_intern {content : String} : Orderly [] [] (intern content) s :=
  .keeps (fun _ ↦ rfl) fun _ ↦ rfl

theorem orderly_useSelf : Orderly [] [] useSelf s :=
  .keeps (fun _ ↦ rfl) fun _ ↦ rfl

theorem orderly_fail {cause : Cause} : Orderly os ps (fail cause span : Analysis α) s :=
  .throw (Cause.at_ne_misfilled _ _)

theorem orderly_require {condition : Bool} {cause : Cause} :
    Orderly [] [] (require condition cause span) s := .ite (.pure ()) orderly_fail

theorem orderly_demand {value? : Option α} {cause : Cause} :
    Orderly [] [] (demand value? cause span) s := by
  cases value? with
  | some a => exact .pure a
  | none => exact orderly_fail

theorem orderly_lift {x : Except Fault α} (h : x ≠ .error .misfilled) :
    Orderly [] [] (lift x) s := by
  cases x with
  | ok a => exact .pure a
  | error fault =>
    exact .throw fun hf ↦ h (congrArg Except.error hf)

theorem appends_word (w : UInt32) : Appends (·.word w) := .push (fun _ ↦ rfl) fun _ ↦ rfl

theorem orderly_emit {op : Opcode} : Orderly [] [] (emit op) s :=
  .append (.push (fun _ ↦ rfl) fun _ ↦ rfl)

theorem orderly_emitWord {w : UInt32} : Orderly [] [] (emitWord w) s := .append (appends_word w)

theorem orderly_emitNumber {n : Nat} : Orderly [] [] (emitNumber n) s := orderly_emitWord

theorem orderly_emitWide {value : UInt64} : Orderly [] [] (emitWide value) s :=
  .append ((appends_word (Chunk.lowWord value)).comp (appends_word (Chunk.highWord value)))

theorem orderly_setLine {line : Nat} : Orderly [] [] (setLine line) s :=
  .append ⟨fun _ ↦ List.prefix_rfl, fun _ ↦ rfl⟩

theorem orderly_modifyFrame {f : Frame → Frame} (h : ∀ fr, (f fr).slotCount = fr.slotCount) :
    Orderly [] [] (modifyFrame f) s :=
  .keeps (fun _ ↦ rfl) fun s ↦ congrArg (s.assembler, ·, s.environment.slots) (h s.frame)

theorem orderly_resolve? {x : String} : Orderly [] [] (resolve? x) s :=
  .keeps (fun _ ↦ rfl) fun _ ↦ rfl

theorem orderly_requireUndeclared {x : String} : Orderly [] [] (requireUndeclared x span) s :=
  orderly_get.step fun _ _ _ ↦ orderly_require

theorem orderly_requireComplete : Orderly [] [] (requireComplete Γ span) s := by
  refine .ite (orderly_get.step fun s' _ _ ↦ orderly_lift fun h ↦ ?_) (.pure ())
  unfold Environment.requireComplete at h
  split at h <;> cases h

theorem orderly_emitAccess {storage : Storage} {action : Access} {slot : Nat} :
    Orderly [] [] (emitAccess storage action slot) s := by
  refine orderly_emit.step fun _ _ _ ↦ .ite ?_ orderly_emitNumber
  exact orderly_useSelf.step fun _ _ _ ↦ orderly_emitNumber

/-! ## Operands, arguments and statements -/

theorem orderly_operand (hrec : rec.Orderly) : Orderly [] [] (operand Γ rec) s :=
  orderly_next.step fun _ _ _ ↦ hrec _ _ _ _

theorem orderly_operandAndSpan (hrec : rec.Orderly) : Orderly [] [] (operandAndSpan Γ rec) s :=
  orderly_next.step fun _ _ _ ↦ (hrec _ _ _ _).step fun _ _ _ ↦ .pure _

theorem orderly_fitting (hrec : rec.Orderly) {token : Token} {expected : Ty} :
    Orderly [] [] (fitting Γ rec token expected) s :=
  (hrec _ _ _ _).step fun _ _ _ ↦ orderly_require.step fun _ _ _ ↦ .pure _

theorem orderly_operandFitting (hrec : rec.Orderly) {expected : Ty} :
    Orderly [] [] (operandFitting Γ rec expected) s :=
  orderly_next.step fun _ _ _ ↦ orderly_fitting hrec

theorem orderly_operandsFitting (hrec : rec.Orderly) {expected : List Ty} :
    Orderly [] [] (operandsFitting Γ rec expected) s := by
  induction expected generalizing s with
  | nil => exact .pure ()
  | cons t expected ih => exact (orderly_operandFitting hrec).step fun _ _ _ ↦ ih

theorem orderly_arguments (hrec : rec.Orderly) {expected : List Ty} :
    Orderly [] [] (arguments Γ rec expected) s := by
  refine (orderly_reading (Reading.neverMisfills_accept _)).step fun bracketed _ _ ↦ ?_
  refine (orderly_operandsFitting hrec).step fun _ _ _ ↦ .ite ?_ (.pure ())
  exact (orderly_reading (Reading.neverMisfills_expect _)).step fun _ _ _ ↦ .pure ()

theorem orderly_callMember (hrec : rec.Orderly) {m : Member} {receiver : Ty} :
    Orderly [] [] (callMember Γ rec m receiver span) s :=
  orderly_require.step fun _ _ _ ↦ (orderly_arguments hrec).step fun _ _ _ ↦ .pure _

theorem orderly_statement (hrec : rec.Orderly) {token : Token} :
    Orderly [] [] (statement Γ rec token) s := by
  refine .step (orderly_modifyFrame fun _ ↦ rfl) fun _ _ _ ↦ ?_
  refine (hrec _ _ _ _).step fun _ _ _ ↦ orderly_frame.step fun _ _ _ ↦ ?_
  exact .ite orderly_warn (.pure ())

theorem orderly_statements (hrec : rec.Orderly) : Orderly [] [] (statements Γ rec) s := by
  refine .repeatUntil (fun _ s ↦ ?_) ()
  refine orderly_next.step fun _ _ _ ↦ .ite (.pure _) ?_
  exact (orderly_statement hrec).step fun _ _ _ ↦ .pure _

/-! ## Values -/

theorem orderly_stringLiteral {content : String} : Orderly [] [] (stringLiteral content) s :=
  orderly_intern.step fun _ _ _ ↦ orderly_emit.step fun _ _ _ ↦
    orderly_emitNumber.step fun _ _ _ ↦ .pure _

theorem orderly_booleanLiteral {value : Bool} : Orderly [] [] (booleanLiteral value) s :=
  orderly_emit.step fun _ _ _ ↦ .pure _

theorem orderly_integerLiteral {value : Int64} : Orderly [] [] (integerLiteral value) s := by
  refine .ite ?_ ?_
  · exact orderly_emit.step fun _ _ _ ↦ orderly_emitWide.step fun _ _ _ ↦ .pure _
  · exact orderly_emit.step fun _ _ _ ↦ orderly_emitWord.step fun _ _ _ ↦ .pure _

theorem orderly_doubleLiteral {bits : UInt64} : Orderly [] [] (doubleLiteral bits) s :=
  orderly_emit.step fun _ _ _ ↦ orderly_emitWide.step fun _ _ _ ↦ .pure _

theorem orderly_symbolLiteral {value : Symbol} : Orderly [] [] (symbolLiteral value) s :=
  orderly_emit.step fun _ _ _ ↦ orderly_emitWord.step fun _ _ _ ↦ .pure _

theorem orderly_nothingnessLiteral : Orderly [] [] nothingnessLiteral s :=
  orderly_emit.step fun _ _ _ ↦ .pure _

theorem orderly_selfReference : Orderly [] [] (selfReference Γ span) s := by
  refine orderly_require.step fun _ _ _ ↦ orderly_frame.step fun _ _ _ ↦ ?_
  refine orderly_require.step fun _ _ _ ↦ orderly_requireComplete.step fun _ _ _ ↦ ?_
  exact orderly_useSelf.step fun _ _ _ ↦ orderly_emit.step fun _ _ _ ↦ .pure _

theorem orderly_emitEnumNumber {opcode : Hole} {number : UInt64} :
    Orderly [opcode.offset] [] (emitEnumNumber opcode number) s := by
  refine .ite ?_ ?_
  · exact Orderly.fillOpcode.last fun _ _ _ ↦ orderly_emitWord
  · exact Orderly.fillOpcode.last fun _ _ _ ↦ orderly_emitWide

theorem orderly_enumValue : Orderly [] [] (enumValue Γ span) s := by
  refine .reserve fun opcode _ ↦ ?_
  refine orderly_annotated.step fun ⟨t, _⟩ _ _ ↦ orderly_require.step fun _ _ _ ↦ ?_
  refine orderly_require.step fun _ _ _ ↦ orderly_name.step fun ⟨value, valueSpan⟩ _ _ ↦ ?_
  refine orderly_demand.step fun _ _ _ ↦ ?_
  exact orderly_emitEnumNumber.last fun _ _ _ ↦ .pure _

theorem orderly_isNothingness (hrec : rec.Orderly) : Orderly [] [] (isNothingness Γ rec) s :=
  orderly_emit.step fun _ _ _ ↦ (orderly_operand hrec).step fun _ _ _ ↦ .pure _

theorem orderly_identical (hrec : rec.Orderly) : Orderly [] [] (identical Γ rec) s :=
  orderly_emit.step fun _ _ _ ↦ (orderly_operandFitting hrec).step fun _ _ _ ↦
    (orderly_operandFitting hrec).step fun _ _ _ ↦ .pure _

/-! ## Strings and collections -/

theorem orderly_concatenate (hrec : rec.Orderly) : Orderly [] [] (concatenate Γ rec) s := by
  refine orderly_emit.step fun _ _ _ ↦ .reserve fun count _ ↦ ?_
  refine (orderly_operandFitting hrec).step fun _ _ _ ↦ ?_
  refine Orderly.step (.repeatUntil (fun strings s ↦ ?_) 1) fun strings _ _ ↦ ?_
  · refine orderly_next.step fun _ _ _ ↦ .ite (.pure _) ?_
    exact (orderly_fitting hrec).step fun _ _ _ ↦ .pure _
  · exact Orderly.fill.last fun _ _ _ ↦ .pure _

theorem orderly_emptyElement {id : TypeId} {hint : Option Ty} :
    Orderly [] [] (emptyElement id hint span) s := by
  unfold emptyElement
  cases (hint.filter (·.objectId? == some id)).bind (·.arguments.head?) with
  | some element => exact .pure _
  | none => exact orderly_warn.step fun _ _ _ ↦ .pure _

theorem orderly_collection {opcode : Opcode} {id : TypeId} {part : Token → Analysis Ty}
    {hint : Option Ty} (hpart : ∀ token s, Orderly [] [] (part token) s) :
    Orderly [] [] (collection Γ opcode id part hint span) s := by
  refine orderly_emit.step fun _ _ _ ↦ .reserveCount fun count _ ↦ ?_
  refine Orderly.step (.repeatUntil (fun common? s ↦ ?_) none) fun common? _ _ ↦ ?_
  · refine orderly_next.step fun token _ _ ↦ .ite (.pure _) ?_
    exact (hpart token _).step fun _ _ _ ↦ .pure _
  · refine Orderly.fillCount.last fun _ _ _ ↦ ?_
    cases common? with
    | some element => exact (Orderly.pure element).step fun _ _ _ ↦ .pure _
    | none => exact orderly_emptyElement.step fun _ _ _ ↦ .pure _

theorem orderly_list (hrec : rec.Orderly) {hint : Option Ty} :
    Orderly [] [] (list Γ rec hint span) s := orderly_collection fun _ _ ↦ hrec _ _ _ _

theorem orderly_dictionary (hrec : rec.Orderly) {hint : Option Ty} :
    Orderly [] [] (dictionary Γ rec hint span) s :=
  orderly_collection fun _ _ ↦ (orderly_fitting hrec).step fun _ _ _ ↦ orderly_operand hrec

/-! ## Conversions -/

theorem orderly_cast (hrec : rec.Orderly) : Orderly [] [] (cast Γ rec span) s := by
  refine .reserve fun opcode _ ↦ (orderly_operandFitting hrec).step fun found _ _ ↦ ?_
  refine orderly_annotated.step fun ⟨target, _⟩ _ _ ↦ ?_
  refine .optional orderly_warn fun _ ↦ ?_
  dsimp only
  generalize target.kind = kind
  cases kind with
  | object id =>
    refine orderly_demand.step fun _ _ _ ↦ orderly_require.step fun _ _ _ ↦ ?_
    exact Orderly.fillOpcode.last fun _ _ _ ↦ orderly_emitNumber.step fun _ _ _ ↦ .pure _
  | protocol id =>
    refine orderly_demand.step fun _ _ _ ↦ ?_
    exact Orderly.fillOpcode.last fun _ _ _ ↦ orderly_emitNumber.step fun _ _ _ ↦ .pure _
  | boolean | integer | symbol | double => exact Orderly.fillOpcode.last fun _ _ _ ↦ .pure _
  | _ => exact orderly_fail.last fun _ _ _ ↦ .pure _

theorem orderly_unwrap (hrec : rec.Orderly) : Orderly [] [] (unwrap Γ rec span) s :=
  orderly_emit.step fun _ _ _ ↦ (orderly_operand hrec).step fun _ _ _ ↦
    orderly_require.step fun _ _ _ ↦ .pure _

/-! ## Calls and instances -/

theorem orderly_call (hrec : rec.Orderly) {method : Symbol} :
    Orderly [] [] (call Γ rec method span) s := by
  refine .reserve fun opcode _ ↦ (orderly_operandAndSpan hrec).step fun ⟨receiver, _⟩ _ _ ↦ ?_
  refine orderly_require.step fun _ _ _ ↦ ?_
  dsimp only
  generalize (dispatchType Γ receiver).kind = kind
  cases kind with
  | protocol id =>
    refine orderly_demand.step fun _ _ _ ↦ orderly_demand.step fun _ _ _ ↦ ?_
    refine Orderly.fillOpcode.last fun _ _ _ ↦ orderly_emitNumber.step fun _ _ _ ↦ ?_
    exact orderly_emitNumber.step fun _ _ _ ↦ orderly_callMember hrec
  | object id =>
    refine orderly_demand.step fun _ _ _ ↦ Orderly.fillOpcode.last fun _ _ _ ↦ ?_
    exact orderly_emitNumber.step fun _ _ _ ↦ orderly_callMember hrec
  | _ =>
    refine orderly_demand.step fun operation _ _ ↦ Orderly.fillOpcode.last fun _ _ _ ↦ ?_
    cases operation.operand? with
    | some t => exact (orderly_operandFitting hrec).step fun _ _ _ ↦ .pure _
    | none => exact .pure _

theorem orderly_optionalChain (hrec : rec.Orderly) :
    Orderly [] [] (optionalChain Γ rec span) s := by
  refine orderly_emit.step fun _ _ _ ↦ .reserveCount fun count _ ↦ ?_
  refine orderly_name.step fun ⟨method, methodSpan⟩ _ _ ↦ ?_
  refine (orderly_operand hrec).step fun t _ _ ↦ orderly_require.step fun _ _ _ ↦ ?_
  refine orderly_demand.step fun _ _ _ ↦ orderly_emitNumber.step fun _ _ _ ↦ ?_
  refine Orderly.fillCount.last fun _ _ _ ↦ ?_
  exact (orderly_callMember hrec).step fun _ _ _ ↦ .pure _

theorem orderly_callClassMethod (hrec : rec.Orderly) :
    Orderly [] [] (callClassMethod Γ rec) s := by
  refine orderly_emit.step fun _ _ _ ↦ orderly_name.step fun ⟨method, span⟩ _ _ ↦ ?_
  refine orderly_annotated.step fun ⟨annotated, dynamic⟩ _ _ ↦ .optional orderly_warn fun _ ↦ ?_
  refine orderly_demand.step fun _ _ _ ↦ orderly_emitWord.step fun _ _ _ ↦ ?_
  refine orderly_demand.step fun _ _ _ ↦ orderly_emitNumber.step fun _ _ _ ↦ ?_
  exact orderly_callMember hrec

theorem orderly_callSuperMethod (hrec : rec.Orderly) :
    Orderly [] [] (callSuperMethod Γ rec span) s := by
  refine orderly_name.step fun ⟨method, methodSpan⟩ _ _ ↦ orderly_require.step fun _ _ _ ↦ ?_
  refine orderly_demand.step fun _ _ _ ↦ orderly_emit.step fun _ _ _ ↦ ?_
  refine orderly_emitNumber.step fun _ _ _ ↦ orderly_demand.step fun _ _ _ ↦ ?_
  refine orderly_emitNumber.step fun _ _ _ ↦ orderly_useSelf.step fun _ _ _ ↦ ?_
  exact orderly_callMember hrec

theorem orderly_captureMethod (hrec : rec.Orderly) : Orderly [] [] (captureMethod Γ rec) s := by
  refine orderly_name.step fun ⟨method, span⟩ _ _ ↦ orderly_emit.step fun _ _ _ ↦ ?_
  refine (orderly_operandAndSpan hrec).step fun ⟨receiver, _⟩ _ _ ↦ ?_
  refine orderly_require.step fun _ _ _ ↦ orderly_demand.step fun _ _ _ ↦ ?_
  exact orderly_emitNumber.step fun _ _ _ ↦ orderly_require.step fun _ _ _ ↦ .pure _

theorem orderly_invoke (hrec : rec.Orderly) : Orderly [] [] (invoke Γ rec) s := by
  refine orderly_emit.step fun _ _ _ ↦ (orderly_operandAndSpan hrec).step fun ⟨t, _⟩ _ _ ↦ ?_
  refine orderly_require.step fun _ _ _ ↦ ?_
  exact (orderly_arguments hrec).step fun _ _ _ ↦ .pure _

theorem orderly_instantiate (hrec : rec.Orderly) : Orderly [] [] (instantiate Γ rec span) s := by
  refine orderly_emit.step fun _ _ _ ↦ orderly_annotated.step fun ⟨t, dynamic⟩ _ _ ↦ ?_
  refine orderly_demand.step fun _ _ _ ↦ orderly_require.step fun _ _ _ ↦ ?_
  refine orderly_emitWord.step fun _ _ _ ↦ orderly_name.step fun ⟨initializer, _⟩ _ _ ↦ ?_
  refine orderly_demand.step fun _ _ _ ↦ orderly_require.step fun _ _ _ ↦ ?_
  refine orderly_emitNumber.step fun _ _ _ ↦ orderly_require.step fun _ _ _ ↦ ?_
  exact (orderly_arguments hrec).step fun _ _ _ ↦ .pure _

theorem orderly_superInitializer (hrec : rec.Orderly) :
    Orderly [] [] (superInitializer Γ rec span) s := by
  refine orderly_require.step fun _ _ _ ↦ orderly_demand.step fun _ _ _ ↦ ?_
  refine orderly_frame.step fun _ _ _ ↦ orderly_require.step fun _ _ _ ↦ ?_
  refine orderly_frame.step fun _ _ _ ↦ orderly_require.step fun _ _ _ ↦ ?_
  refine orderly_requireComplete.step fun _ _ _ ↦ orderly_emit.step fun _ _ _ ↦ ?_
  refine orderly_emitNumber.step fun _ _ _ ↦ orderly_name.step fun ⟨initializer, _⟩ _ _ ↦ ?_
  refine orderly_demand.step fun _ _ _ ↦ orderly_emitNumber.step fun _ _ _ ↦ ?_
  refine orderly_require.step fun _ _ _ ↦ (orderly_arguments hrec).step fun _ _ _ ↦ ?_
  exact .step (orderly_modifyFrame fun _ ↦ rfl) fun _ _ _ ↦ .pure _

theorem orderly_returnValue (hrec : rec.Orderly) : Orderly [] [] (returnValue Γ rec span) s := by
  refine orderly_frame.step fun _ _ _ ↦ orderly_require.step fun _ _ _ ↦ ?_
  refine .step (orderly_modifyFrame fun _ ↦ rfl) fun _ _ _ ↦ ?_
  cases Γ.initializer? with
  | some initializer =>
    refine orderly_require.step fun _ _ _ ↦ orderly_emit.step fun _ _ _ ↦ ?_
    exact (orderly_operandFitting hrec).step fun _ _ _ ↦ .pure _
  | none =>
    refine orderly_require.step fun _ _ _ ↦ orderly_emit.step fun _ _ _ ↦ ?_
    refine (orderly_operandFitting hrec).step fun _ _ _ ↦ ?_
    exact .step (orderly_modifyFrame fun _ ↦ rfl) fun _ _ _ ↦ .pure _

/-! ## Variables -/

theorem orderly_mutate {v : Variable} : Orderly [] [] (lift (v.mutate span)) s := by
  refine orderly_lift fun h ↦ ?_
  unfold Variable.mutate at h
  split at h <;> cases h

theorem orderly_requireReady {v : Variable} : Orderly [] [] (lift (v.requireReady span)) s := by
  refine orderly_lift fun h ↦ ?_
  unfold Variable.requireReady at h
  split at h <;> cases h

theorem orderly_readVariable {x : String} : Orderly [] [] (readVariable x span) s := by
  refine orderly_resolve?.step fun found? _ _ ↦ orderly_demand.step fun ⟨storage, v⟩ _ _ ↦ ?_
  exact orderly_requireReady.step fun _ _ _ ↦ orderly_emitAccess.step fun _ _ _ ↦ .pure _

theorem orderly_declareVariable : Orderly [] [] (declareVariable Γ) s := by
  refine orderly_variableName.step fun ⟨x, span⟩ _ _ ↦ orderly_requireUndeclared.step fun _ _ _ ↦ ?_
  refine orderly_annotated.step fun ⟨type, _⟩ _ _ ↦ .newSlot fun slot _ ↦ ?_
  dsimp only
  split
  · exact .last (.declare rfl) fun _ _ _ ↦ .pure _
  · exact .last (.declare rfl) fun _ _ _ ↦ .pure _

/-- The slot of a variable that is stored is left to what declares the variable. -/
theorem orderly_storeNew (hrec : rec.Orderly) {x : String} {f : Variable → Analysis β}
    (h : ∀ v s, Orderly os (v.slot :: ps) (f v) s) :
    Orderly os ps (storeNew Γ rec x span >>= f) s := by
  simp only [storeNew, bind_assoc, pure_bind]
  refine orderly_emit.step fun _ _ _ ↦ .newSlot fun slot _ ↦ ?_
  refine orderly_emitNumber.step fun _ _ _ ↦ (orderly_operand hrec).step fun type _ _ ↦ ?_
  exact h (Variable.ready { name := x, type, slot, span }) _

theorem orderly_declareFrozen (hrec : rec.Orderly) : Orderly [] [] (declareFrozen Γ rec) s := by
  refine orderly_variableName.step fun ⟨x, span⟩ _ _ ↦ orderly_requireUndeclared.step fun _ _ _ ↦ ?_
  exact orderly_storeNew hrec fun v _ ↦ .last (.declare rfl) fun _ _ _ ↦ .pure _

theorem orderly_update {x : String} {f : Variable → Variable}
    (h : ∀ st v, s.environment.resolve? x = some (st, v) → v.Evolves (f v)) :
    Orderly [] [] (modifyEnvironment (·.update x f)) s := by
  refine Orderly.change ?_
  have hg : s.environment.Grows 0 0 (s.environment.update x f) := Environment.grows_update h
  rw [Environment.slots_of_grows hg]

/-- The variable that a name refers to is written. -/
theorem orderly_written {x : String} {st : Storage} {v mutated : Variable}
    (hx : s.environment.resolve? x = some (st, v)) (hm : v.mutate span = .ok mutated) :
    Orderly [] [] (modifyEnvironment (·.update x fun _ ↦ mutated)) s := by
  refine orderly_update fun st' v' hv ↦ ?_
  rw [hx] at hv
  cases hv
  exact Variable.mutate_evolves hm

theorem orderly_assign (hrec : rec.Orderly) : Orderly [] [] (assign Γ rec) s := by
  refine orderly_variableName.step fun ⟨x, span⟩ s₁ _ ↦ ?_
  refine orderly_resolve?.step fun found? s₂ h₂ ↦ ?_
  obtain ⟨hx, rfl⟩ := resolve?_ok h₂
  cases found? with
  | none => exact orderly_storeNew hrec fun v _ ↦ .last (.declare rfl) fun _ _ _ ↦ .pure _
  | some found =>
    obtain ⟨st, v⟩ := found
    refine orderly_mutate.step fun mutated s₃ h₃ ↦ ?_
    obtain ⟨hm, rfl⟩ := lift_ok h₃
    refine (orderly_written hx hm).step fun _ _ _ ↦ orderly_emitAccess.step fun _ _ _ ↦ ?_
    refine (orderly_operandFitting hrec).step fun _ _ _ ↦ ?_
    exact .step (orderly_update fun _ v _ ↦ .settle v) fun _ _ _ ↦ .pure _

theorem orderly_stepVariable {construct : Construct} {action : Access} :
    Orderly [] [] (stepVariable Γ construct action) s := by
  refine orderly_variableName.step fun ⟨x, span⟩ s₁ _ ↦ ?_
  refine orderly_resolve?.step fun found? s₂ h₂ ↦ ?_
  obtain ⟨hx, rfl⟩ := resolve?_ok h₂
  refine orderly_demand.step fun ⟨st, v⟩ s₃ h₃ ↦ ?_
  obtain ⟨rfl, rfl⟩ := demand_ok h₃
  refine orderly_requireReady.step fun _ s₄ h₄ ↦ ?_
  obtain ⟨-, rfl⟩ := lift_ok h₄
  refine orderly_require.step fun _ s₅ h₅ ↦ ?_
  obtain ⟨-, rfl⟩ := require_ok h₅
  refine orderly_mutate.step fun mutated s₆ h₆ ↦ ?_
  obtain ⟨hm, rfl⟩ := lift_ok h₆
  exact (orderly_written hx hm).step fun _ _ _ ↦ orderly_emitAccess.step fun _ _ _ ↦ .pure _

/-! ## Blocks and branches -/

theorem orderly_enterConditional {withFields : Bool} :
    Orderly [] [] (enterConditional withFields) s := by
  have h (s : State) : Orderly [] []
      (modifyEnvironment (·.enterConditional withFields)) s :=
    Orderly.change (by rw [Environment.enterConditional, Environment.slots_shift])
  exact orderly_get.step fun s' _ _ ↦
    .ite (.step (.throw fun h ↦ nomatch h) fun _ _ _ ↦ h _) (h _)

theorem orderly_conditionalBlock (hrec : rec.Orderly) :
    Orderly [] [] (conditionalBlock Γ rec) s := by
  refine orderly_enterConditional.step fun _ _ _ ↦ ?_
  refine .step (orderly_modifyFrame fun _ ↦ rfl) fun _ _ _ ↦ ?_
  refine (orderly_reading (Reading.neverMisfills_expectConstruct _ _)).step fun _ _ _ ↦ ?_
  refine .reserveCount fun count _ ↦ (orderly_statements hrec).step fun _ _ _ ↦ ?_
  refine Orderly.fillCount.last fun _ s₁ _ ↦ orderly_get.step fun s₂ s₃ h₃ ↦ ?_
  cases h₃
  refine .step (Orderly.change ?_) fun _ _ _ ↦ ?_
  · exact (congrArg (List.Sublist · _) (Environment.slots_shift _ _)).mpr (.refl _)
  · exact .step (orderly_modifyFrame fun _ ↦ rfl) fun _ _ _ ↦ .pure _

theorem orderly_recommendFrozen {candidates : List Variable} :
    Orderly [] [] (recommendFrozen Γ candidates) s :=
  .ite (.forM fun _ _ ↦ orderly_warn) (.pure ())

/-- An analysis is orderly in a scope of its own if it is so anywhere. -/
theorem orderly_inScope {m : Analysis α} (h : ∀ s, Orderly os ps m s) :
    Orderly os ps (inScope Γ m) s := by
  refine .step (Orderly.change (List.Sublist.refl _)) fun _ _ _ ↦ ?_
  refine (h _).last fun value s₁ _ ↦ orderly_get.step fun s₂ s₃ h₃ ↦ ?_
  cases h₃
  cases hpop : s₁.environment.pop? with
  | none => exact .pure _
  | some popped =>
    obtain ⟨left, environment⟩ := popped
    refine .step (Orderly.change (Environment.slots_of_pop? hpop)) fun _ _ _ ↦ ?_
    exact orderly_recommendFrozen.step fun _ _ _ ↦ .pure _

theorem orderly_condition (hrec : rec.Orderly) : Orderly [] [] (condition Γ rec) s := by
  refine orderly_accepts.step fun _ _ _ ↦ .ite ?_ ?_
  · refine orderly_variableName.step fun ⟨x, span⟩ _ _ ↦ ?_
    refine orderly_requireUndeclared.step fun _ _ _ ↦ orderly_emit.step fun _ _ _ ↦ ?_
    refine .newSlot fun slot _ ↦ orderly_emitNumber.step fun _ _ _ ↦ ?_
    refine orderly_here.step fun _ _ _ ↦ (orderly_operand hrec).step fun _ _ _ ↦ ?_
    exact orderly_require.step fun _ _ _ ↦ .declare rfl
  · exact (orderly_operandFitting hrec).step fun _ _ _ ↦ .pure ()

theorem orderly_branch (hrec : rec.Orderly) : Orderly [] [] (branch Γ rec) s :=
  orderly_inScope fun _ ↦ (orderly_condition hrec).step fun _ _ _ ↦ orderly_conditionalBlock hrec

theorem orderly_ifChain (hrec : rec.Orderly) : Orderly [] [] (ifChain Γ rec) s := by
  refine orderly_emit.step fun _ _ _ ↦ .reserveCount fun count _ ↦ ?_
  refine (orderly_branch hrec).step fun first _ _ ↦ ?_
  refine .step (.repeatUntil (fun branches s ↦ ?_) [first]) fun conditional _ _ ↦ ?_
  · refine orderly_accepts.step fun _ _ _ ↦ .ite ?_ (.pure _)
    exact orderly_emit.step fun _ _ _ ↦ (orderly_branch hrec).step fun _ _ _ ↦ .pure _
  refine orderly_accepts.step fun _ _ _ ↦ .ite ?_ ?_
  · refine orderly_emit.step fun _ _ _ ↦ ?_
    refine (orderly_inScope fun _ ↦ orderly_conditionalBlock hrec).step fun last _ _ ↦ ?_
    refine Orderly.fillCount.last fun _ s₁ _ ↦ ?_
    refine .step (Orderly.change ?_) fun _ _ _ ↦ .pure _
    have hg : s₁.environment.Grows 0 0
        ((inEach (conditional ++ [last])).foldl Environment.settle s₁.environment) :=
      .foldl_settle _ _
    rw [Environment.slots_of_grows hg]
  · exact Orderly.fillCount.last fun _ _ _ ↦ .pure _

theorem orderly_repeatWhile (hrec : rec.Orderly) : Orderly [] [] (repeatWhile Γ rec) s := by
  refine orderly_emit.step fun _ _ _ ↦ (orderly_operandFitting hrec).step fun _ _ _ ↦ ?_
  exact (orderly_inScope fun _ ↦ orderly_conditionalBlock hrec).step fun _ _ _ ↦ .pure _

/-- The slot of the element is declared in, the hidden slot of the loop is not. -/
theorem orderly_forIn (hrec : rec.Orderly) : Orderly [] [] (forIn Γ rec span) s := by
  refine .reserve fun opcode _ ↦ orderly_variableName.step fun ⟨x, span⟩ _ _ ↦ ?_
  refine .last (orderly_inScope fun _ ↦ ?_) fun _ _ _ ↦ .pure _
  refine .newSlot fun slot _ ↦ orderly_emitNumber.step fun _ _ _ ↦ ?_
  refine .newSlot fun hidden _ ↦ .drop (orderly_emitNumber.step fun _ _ _ ↦ ?_)
  refine (orderly_operandFitting hrec).step fun _ _ _ ↦ orderly_demand.step fun _ _ _ ↦ ?_
  refine Orderly.fillOpcode.bind fun _ _ _ ↦ ?_
  exact .last (.declare rfl) fun _ _ _ ↦ orderly_conditionalBlock hrec

/-! ## Bodies -/

theorem orderly_declareArgument {a : Argument} : Orderly [] [] (declareArgument Γ span a) s :=
  .newSlot fun _ _ ↦ .declare rfl

theorem orderly_skipBody : Orderly [] [] skipBody s := by
  refine .repeatUntil (fun depth s ↦ ?_) 0
  exact orderly_next.step fun _ _ _ ↦ .ite (.pure _) (.ite (.pure _) (.pure _))

theorem orderly_deadStatement? : Orderly [] [] deadStatement? s :=
  orderly_frame.step fun _ _ _ ↦ .ite (orderly_get.step fun _ _ _ ↦ .pure _) (.pure _)

theorem orderly_bodyStatements (hrec : rec.Orderly) : Orderly [] [] (bodyStatements Γ rec) s := by
  refine .repeatUntil (fun reported s ↦ ?_) false
  refine orderly_next.step fun _ _ _ ↦ .ite (.pure _) ?_
  refine (orderly_statement hrec).step fun _ _ _ ↦ .ite (.pure _) ?_
  refine orderly_deadStatement?.step fun dead? _ _ ↦ ?_
  cases dead? with
  | none => exact .pure _
  | some dead =>
    refine orderly_warn.step fun _ _ _ ↦ .ite (.pure _) ?_
    exact orderly_skipBody.step fun _ _ _ ↦ .pure _

theorem orderly_leaveBody {firstTaken outerSlots : Nat} :
    Orderly [] [] (leaveBody Γ firstTaken outerSlots span) s := by
  refine orderly_get.step fun _ _ _ ↦ orderly_recommendFrozen.step fun _ _ _ ↦ ?_
  refine orderly_frame.step fun _ _ _ ↦ orderly_require.step fun _ _ _ ↦ ?_
  refine orderly_requireComplete.step fun _ _ _ ↦ orderly_frame.step fun _ _ _ ↦ ?_
  exact orderly_require.step fun _ _ _ ↦ orderly_frame.step fun _ _ _ ↦ .pure _

/-- **Every body is orderly**, if what it takes over are variables in slots of their own. -/
theorem orderly_body (hrec : rec.Orderly) {arguments : List Argument} {captured : List Variable}
    {outerSlots : Nat} (hnodup : (captured.map (·.slot)).Nodup)
    (hlt : ∀ v ∈ captured, v.slot < outerSlots) :
    Orderly [] [] (body Γ rec arguments captured outerSlots) s := by
  refine orderly_here.step fun _ _ _ ↦ (Orderly.forM fun _ _ ↦ orderly_declareArgument).step
    fun _ _ _ ↦ ?_
  refine (Orderly.takeOver hnodup hlt).step fun _ _ _ ↦ ?_
  exact (orderly_bodyStatements hrec).step fun _ _ _ ↦ orderly_leaveBody

theorem orderly_closureArguments : Orderly [] [] (closureArguments Γ) s := by
  refine .repeatUntil (fun arguments s ↦ ?_) []
  refine (orderly_reading Reading.neverMisfills_acceptReference).step fun x? _ _ ↦ ?_
  cases x? with
  | none => exact .pure _
  | some x => exact orderly_annotated.step fun ⟨type, _⟩ _ _ ↦ .pure _

theorem orderly_closureResult : Orderly [] [] (closureResult Γ) s := by
  refine (orderly_reading (Reading.neverMisfills_accept _)).step fun _ _ _ ↦ .ite ?_ (.pure _)
  exact orderly_annotated.step fun _ _ _ ↦ .pure _

/-- A closure takes over the frame around it: the variables in reach there are in slots of their
own. -/
theorem orderly_closure (hrec : rec.Orderly) : Orderly [] [] (closure Γ rec) s := by
  refine orderly_closureArguments.step fun arguments _ _ ↦ ?_
  refine orderly_closureResult.step fun result _ _ ↦ orderly_emit.step fun _ _ _ ↦ ?_
  refine .reserve fun slots _ ↦ .reserveCount fun count s₁ ↦ .standing fun hnodup hbounds ↦ ?_
  refine orderly_get.step fun outer s₂ h₂ ↦ ?_
  cases h₂
  refine orderly_frame.step fun f s₃ h₃ ↦ ?_
  cases h₃
  -- hidden variables are left out, which keeps the slots apart
  have hsub : (s₁.environment.visible.map (·.slot)).Sublist s₁.environment.slots :=
    (Environment.withoutHidden_sublist [] _).map _
  refine .step (.inFrame (orderly_body hrec (hsub.nodup hnodup) fun v hv ↦ ?_)) fun summary _ _ ↦ ?_
  · exact hbounds _ (hsub.subset (List.mem_map_of_mem hv))
  refine Orderly.fillCount.bind fun _ _ _ ↦ .ite ?_ ?_
  · refine orderly_useSelf.step fun _ _ _ ↦ orderly_emitWord.step fun _ _ _ ↦ ?_
    exact orderly_emitNumber.step fun _ _ _ ↦ Orderly.fill.last fun _ _ _ ↦ .pure _
  · refine orderly_emitWord.step fun _ _ _ ↦ ?_
    exact orderly_emitNumber.step fun _ _ _ ↦ Orderly.fill.last fun _ _ _ ↦ .pure _

/-! ## Expressions -/

theorem orderly_construct (hrec : rec.Orderly) {token : Token} {symbol : Symbol}
    {hint : Option Ty} : Orderly [] [] (construct Γ rec token symbol hint) s := by
  unfold construct
  generalize Construct.ofSymbol symbol = asked
  cases asked with
  | declare => exact orderly_declareVariable
  | assign => exact orderly_assign hrec
  | declareFrozen => exact orderly_declareFrozen hrec
  | increment | decrement => exact orderly_stepVariable
  | concatenate => exact orderly_concatenate hrec
  | list => exact orderly_list hrec
  | dictionary => exact orderly_dictionary hrec
  | ifBranch => exact orderly_ifChain hrec
  | repeatWhile => exact orderly_repeatWhile hrec
  | forIn => exact orderly_forIn hrec
  | returning => exact orderly_returnValue hrec
  | selfReference => exact orderly_selfReference
  | enumValue => exact orderly_enumValue
  | instantiate => exact orderly_instantiate hrec
  | nothingness => exact orderly_nothingnessLiteral
  | isNothingness => exact orderly_isNothingness hrec
  | identical => exact orderly_identical hrec
  | superInitializer => exact orderly_superInitializer hrec
  | cast => exact orderly_cast hrec
  | unwrap => exact orderly_unwrap hrec
  | optionalChain => exact orderly_optionalChain hrec
  | classMethod => exact orderly_callClassMethod hrec
  | captureMethod => exact orderly_captureMethod hrec
  | invoke => exact orderly_invoke hrec
  | superMethod => exact orderly_callSuperMethod hrec
  | blockOpen => exact orderly_closure hrec
  | method method => exact orderly_call hrec
  | elseIfBranch | elseBranch | blockClose | collectionEnd | dynamicClass => exact orderly_fail

theorem orderly_expressionStep (hrec : rec.Orderly) : (expressionStep rec).Orderly := by
  intro Γ token hint s
  refine orderly_setLine.step fun _ _ _ ↦ ?_
  generalize token.lexeme = lexeme
  cases lexeme with
  | string content => exact orderly_stringLiteral
  | boolean value => exact orderly_booleanLiteral
  | integer value => exact orderly_integerLiteral
  | double bits => exact orderly_doubleLiteral
  | symbol value => exact orderly_symbolLiteral
  | reference x => exact orderly_readVariable
  | comment _ | argumentsOpen | argumentsClose => exact orderly_fail
  | identifier symbol =>
    exact .optional (orderly_modifyFrame fun _ ↦ rfl) fun _ ↦ orderly_construct hrec

/-- **Every expression is orderly.** -/
theorem orderly_expression (fuel : Nat) : (expression fuel).Orderly := by
  induction fuel with
  | zero => exact fun _ _ _ _ ↦ .throw fun h ↦ nomatch h
  | succ fuel ih => exact orderly_expressionStep ih

end Analysis

end Pictograph
