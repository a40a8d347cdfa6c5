import Pictograph.Proofs.Analysis.Composition
import Pictograph.Proofs.Analysis.Reached
import Pictograph.Proofs.Analysis.Variables
import Pictograph.Proofs.Scope.Counters

/-!
# The fields during an analysis

Local variables come and go, but the fields that a body finds in reach are those that it leaves
behind: no construct declares a field, and none changes the name, the type or the slot of one. This
holds of analyses that fail, too, wherever they stop, and so it holds in front of every expression
that is asked for.

Most of an analysis is put together from steps that have to do with no variable. The rules for them
are tagged, so what is left to argue is why a variable that is looked up and changed stays declared
as it is.

## Main definitions

* `Environment.fieldDeclarations`: the fields in reach, without what is known about their values.
* `KeepsFields`: an analysis leaves them alone.

## Main results

* `Analysis.keepsFields_expression`, `Analysis.keepsFields_body`: all expressions and bodies do.
* `Reaches.fieldDeclarations_eq`: the fields are the same in front of every expression.
-/

namespace Pictograph

/-- What is never changed of a variable. -/
def Variable.declaration (v : Variable) : String × Ty × Nat × Bool :=
  (v.name, v.type, v.slot, v.isFrozen)

namespace Environment

variable {e e' : Environment}

/-- The fields in reach, without what is known about their values. -/
def fieldDeclarations (e : Environment) : Option (List (String × Ty × Nat × Bool)) :=
  e.fields.map (·.declared.map Variable.declaration)

/-- Fields that evolve stay declared as they are. -/
theorem Evolves.fieldDeclarations_eq (h : e.Evolves e') :
    e'.fieldDeclarations = e.fieldDeclarations := by
  have hdeclared {l l' : List Variable} (h : List.Forall₂ Variable.Evolves l l') :
      l'.map Variable.declaration = l.map Variable.declaration := by
    induction h with
    | nil => rfl
    | cons hv _ ih =>
      rw [List.map_cons, List.map_cons, ih, Variable.declaration, Variable.declaration, hv.name,
        hv.type, hv.slot, hv.isFrozen]
  have hfields := h.fields
  rw [fieldDeclarations, fieldDeclarations]
  cases hf : e.fields with
  | none =>
    rw [hf] at hfields
    generalize e'.fields = fields' at hfields
    cases hfields
    rfl
  | some s =>
    rw [hf] at hfields
    obtain ⟨s', hs', hs⟩ := exists_of_rel_left hfields
    rw [hs', Option.map_some, Option.map_some, hdeclared hs]

theorem fieldDeclarations_shift (e : Environment) (delta : Int) (withFields : Bool) :
    (e.shift delta withFields).fieldDeclarations = e.fieldDeclarations := by
  have hshift : Variable.declaration ∘ Variable.shift delta = Variable.declaration :=
    funext fun v ↦ by
      rw [Function.comp_apply, Variable.declaration, Variable.shift_name, Variable.shift_type,
        Variable.shift_slot, Variable.shift_isFrozen]
      rfl
  rw [fieldDeclarations, fieldDeclarations, shift]
  cases withFields with
  | false => rfl
  | true =>
    cases e.fields with
    | none => rfl
    | some s => rw [if_pos rfl, Option.map_some, Option.map_some, Scope.shift, List.map_map, hshift,
        Option.map_some]

theorem fieldDeclarations_of_declare {v : Variable} (h : e.declare v = .ok e') :
    e'.fieldDeclarations = e.fieldDeclarations := by
  rw [eq_of_declare h]
  rfl

theorem fieldDeclarations_of_pop? {s : Scope} (h : e.pop? = some (s, e')) :
    e'.fieldDeclarations = e.fieldDeclarations := by
  obtain ⟨current, _ | ⟨s', outer⟩, fields⟩ := e
  · cases h
  · cases h
    rfl

/-- The slots of the fields are part of their declarations. -/
theorem map_slot_stored_object (h : e'.fieldDeclarations = e.fieldDeclarations) :
    (e'.stored .object).map (·.slot) = (e.stored .object).map (·.slot) := by
  have hslots (e : Environment) : (e.stored .object).map (·.slot)
      = e.fieldDeclarations.elim [] (·.map fun d ↦ d.2.2.1) := by
    rw [stored, fieldDeclarations]
    cases e.fields with
    | none => rfl
    | some s =>
      rw [Option.map_some, Option.elim_some, Option.elim_some, List.map_map]
      rfl
  rw [hslots, hslots, h]

end Environment

open Analysis in
/-- An analysis leaves the declarations of fields alone, also if it fails. -/
def KeepsFields {α : Type} (m : Analysis α) : Prop :=
  ∀ s, (final (m s)).environment.fieldDeclarations = s.environment.fieldDeclarations

/-- All expressions do. -/
def Recursion.KeepsFields (rec : Recursion) : Prop :=
  ∀ Γ token hint, Pictograph.KeepsFields (rec Γ token hint)

/-! ## Rules -/

namespace KeepsFields

open Analysis

variable {α β : Type} {m : Analysis α} {s : State}

/-- One step after another, from a certain state on. -/
theorem bind_from {f : α → Analysis β} (h : KeepsFields m)
    (h' : ∀ a s₁, m s = .ok a s₁ →
      (final (f a s₁)).environment.fieldDeclarations = s₁.environment.fieldDeclarations) :
    (final ((m >>= f) s)).environment.fieldDeclarations = s.environment.fieldDeclarations := by
  have hm := h s
  cases hr : m s with
  | ok a s₁ =>
    rw [hr] at hm
    rw [bind_of_ok hr, h' a s₁ hr]
    exact hm
  | error fault s₁ =>
    rw [hr] at hm
    rw [bind_of_error hr]
    exact hm

@[grind ←]
theorem bind {f : α → Analysis β} (h : KeepsFields m) (h' : ∀ a, KeepsFields (f a)) :
    KeepsFields (m >>= f) :=
  fun _ ↦ h.bind_from fun a s₁ _ ↦ h' a s₁

@[grind ←]
theorem pure (a : α) : KeepsFields (pure a) := fun _ ↦ rfl

@[grind ←]
theorem forM {l : List β} {f : β → Analysis Unit} (h : ∀ b, KeepsFields (f b)) :
    KeepsFields (l.forM f) := by
  induction l with
  | nil => exact pure ()
  | cons b l ih => exact (h b).bind fun _ ↦ ih

/-- A step that changes the variables in reach. -/
theorem change {f : Environment → Environment}
    (h : ∀ e, (f e).fieldDeclarations = e.fieldDeclarations) :
    KeepsFields (modifyEnvironment f) :=
  fun s ↦ h s.environment

/-- A frame of its own has the fields of the frame around it. -/
theorem inFrame (h : KeepsFields m) : KeepsFields (Analysis.inFrame m) := by
  intro s
  have hm := h { s with environment := .start s.environment.fields, frame := {} }
  rw [inFrame_eq]
  cases hr : m { s with environment := .start s.environment.fields, frame := {} } with
  | ok a s₁ =>
    rw [hr] at hm
    exact hm
  | error fault s₁ =>
    rw [hr] at hm
    exact hm

end KeepsFields

namespace Analysis

variable {α : Type} {Γ : Setting} {rec : Recursion} {s : State} {span : Span}

/-! ## Steps -/

@[grind ←]
theorem keepsFields_get : KeepsFields (get : Analysis State) := fun _ ↦ rfl

@[grind ←]
theorem keepsFields_throw (fault : Fault) : KeepsFields (throw fault : Analysis α) := fun _ ↦ rfl

@[grind ←]
theorem keepsFields_reading (r : Reading α) : KeepsFields (reading r) := by
  intro s
  unfold reading
  split <;> rfl

@[grind ←]
theorem keepsFields_next : KeepsFields next := keepsFields_reading _

@[grind ←]
theorem keepsFields_variableName : KeepsFields variableName := keepsFields_reading _

@[grind ←]
theorem keepsFields_annotated (dynamism : Dynamism) : KeepsFields ( annotation Γ dynamism) :=
  keepsFields_reading _

@[grind ←]
theorem keepsFields_here : KeepsFields here := fun _ ↦ rfl

@[grind ←]
theorem keepsFields_frame : KeepsFields frame := fun _ ↦ rfl

@[grind ←]
theorem keepsFields_modifyFrame (f : Frame → Frame) : KeepsFields (modifyFrame f) := fun _ ↦ rfl

@[grind ←]
theorem keepsFields_useSelf : KeepsFields useSelf := keepsFields_modifyFrame _

@[grind ←]
theorem keepsFields_emit (op : Opcode) : KeepsFields (emit op) := fun _ ↦ rfl

@[grind ←]
theorem keepsFields_emitWord (w : UInt32) : KeepsFields (emitWord w) := fun _ ↦ rfl

@[grind ←]
theorem keepsFields_emitNumber (n : Nat) : KeepsFields (emitNumber n) := fun _ ↦ rfl

@[grind ←]
theorem keepsFields_reserve : KeepsFields reserve := fun _ ↦ rfl

@[grind ←]
theorem keepsFields_filling (f : Assembler → Option Assembler) : KeepsFields (filling f) := by
  intro s
  unfold filling
  split <;> rfl

@[grind ←]
theorem keepsFields_warn (remark : Remark) : KeepsFields (warn remark span) := fun _ ↦ rfl

@[grind ←]
theorem keepsFields_require (condition : Bool) (cause : Cause) :
    KeepsFields (require condition cause span) := by
  cases condition <;> exact fun _ ↦ rfl

@[grind ←]
theorem keepsFields_demand (value? : Option α) (cause : Cause) :
    KeepsFields (demand value? cause span) := by
  cases value? <;> exact fun _ ↦ rfl

@[grind ←]
theorem keepsFields_lift (x : Except Fault α) : KeepsFields (lift x) := by
  cases x <;> exact fun _ ↦ rfl

@[grind ←]
theorem keepsFields_resolve? (x : String) : KeepsFields (resolve? x) := fun _ ↦ rfl

@[grind ←]
theorem keepsFields_declare (v : Variable) : KeepsFields (declare v) := by
  intro s
  unfold declare
  split
  · next e he => exact Environment.fieldDeclarations_of_declare he
  · rfl

@[grind ←]
theorem keepsFields_requireUndeclared (x : String) : KeepsFields (requireUndeclared x span) := by
  grind [requireUndeclared]

@[grind ←]
theorem keepsFields_requireComplete : KeepsFields (requireComplete Γ span) := by
  grind [requireComplete]

@[grind ←]
theorem keepsFields_newSlot : KeepsFields (newSlot Γ span) := by
  grind [newSlot, requireSlot]

@[grind ←]
theorem keepsFields_emitAccess (storage : Storage) (action : Access) (slot : Nat) :
    KeepsFields (emitAccess storage action slot) := by
  grind [emitAccess]

@[grind ←]
theorem keepsFields_recommendFrozen (candidates : List Variable) :
    KeepsFields (recommendFrozen Γ candidates) := by
  grind [recommendFrozen]

theorem keepsFields_deadStatement? : KeepsFields deadStatement? := by
  grind [deadStatement?]

theorem keepsFields_enterScope : KeepsFields enterScope := .change fun _ ↦ rfl

/-- A scope that is left takes no field with it. -/
theorem keepsFields_leaveScope : KeepsFields (leaveScope Γ) := by
  intro s
  refine keepsFields_get.bind_from fun s₁ s₂ h₁ ↦ ?_
  cases h₁
  cases hpop : s.environment.pop? with
  | none => rfl
  | some popped =>
    obtain ⟨left, e⟩ := popped
    have hrun : (do modifyEnvironment fun _ ↦ e; recommendFrozen Γ left.freezable : Analysis Unit) s
        = recommendFrozen Γ left.freezable { s with environment := e } := bind_of_ok rfl
    dsimp only
    rw [hrun, keepsFields_recommendFrozen]
    exact Environment.fieldDeclarations_of_pop? hpop

/-- A step that gives values to variables. -/
theorem keepsFields_evolve {f : Environment → Environment}
    (h : ∀ e : Environment, e.Evolves (f e)) :
    KeepsFields (modifyEnvironment f) :=
  .change fun e ↦ (h e).fieldDeclarations_eq

theorem keepsFields_settleEach (slots : List Slot) : KeepsFields (settleEach slots) :=
  keepsFields_evolve fun e ↦
    have hgrows : e.Grows 0 0 (slots.foldl Environment.settle e) := .foldl_settle _ _
    hgrows.evolves

/-- Steps have to do with no variable. -/
theorem Step.keepsFields {m : Analysis α} (h : Step m) : KeepsFields m := by
  cases h with
  | pure a => exact .pure a
  | throw | here | remaining | setLine | emit | emitWord | reserve | reserveCount | warn | intern
    | frame | modifyFrame => exact fun _ ↦ rfl
  | reading => exact keepsFields_reading _
  | deadPlace? =>
    rw [Analysis.deadPlace?, map_eq_pure_bind]
    exact keepsFields_deadStatement?.bind fun _ ↦ .pure _
  | fill | fillOpcode | fillCount => exact keepsFields_filling _
  | requireComplete => exact keepsFields_requireComplete
  | enterScope => exact keepsFields_enterScope
  | leaveScope => exact keepsFields_leaveScope
  | settleEach slots => exact keepsFields_settleEach slots

/-! ## Variables -/

/-- Where a variable is written that was looked up, it stays declared as it is. -/
theorem fieldDeclarations_mutating {x : String} {st : Storage} {v : Variable} {m : Analysis α}
    (hx : s.environment.resolve? x = some (st, v)) (hm : KeepsFields m) :
    (final ((do
        let mutated ← lift (v.mutate span)
        modifyEnvironment (·.update x fun _ ↦ mutated)
        m) s)).environment.fieldDeclarations = s.environment.fieldDeclarations := by
  refine (keepsFields_lift _).bind_from fun mutated s₁ h₁ ↦ ?_
  obtain ⟨hmutated, rfl⟩ := lift_ok h₁
  have hevolves : s.environment.Evolves (s.environment.update x fun _ ↦ mutated) := by
    have hgrows : s.environment.Grows 0 0 (s.environment.update x fun _ ↦ mutated) := by
      refine Environment.grows_update fun st' v' hv ↦ ?_
      cases hx.symm.trans hv
      exact Variable.mutate_evolves hmutated
    exact hgrows.evolves
  have hrun : (do modifyEnvironment (·.update x fun _ ↦ mutated); m : Analysis α) s
      = m { s with environment := s.environment.update x fun _ ↦ mutated } := bind_of_ok rfl
  rw [hrun, hm]
  exact hevolves.fieldDeclarations_eq

theorem keepsFields_readVariable (x : String) : KeepsFields (readVariable x span) := by
  grind [readVariable]

theorem keepsFields_declareVariable : KeepsFields (declareVariable Γ) := by
  grind [declareVariable]

theorem keepsFields_stepVariable (construct : Construct) (action : Access) :
    KeepsFields (stepVariable Γ construct action) := by
  refine KeepsFields.bind (keepsFields_reading _) fun ⟨x, span⟩ s ↦ ?_
  refine (keepsFields_resolve? x).bind_from fun found? s₁ h₁ ↦ ?_
  obtain ⟨hx, rfl⟩ := resolve?_ok h₁
  refine (keepsFields_demand _ _).bind_from fun ⟨st, v⟩ s₂ h₂ ↦ ?_
  obtain ⟨rfl, rfl⟩ := demand_ok h₂
  refine (keepsFields_lift _).bind_from fun _ s₃ h₃ ↦ ?_
  obtain ⟨-, rfl⟩ := lift_ok h₃
  refine (keepsFields_require _ _).bind_from fun _ s₄ h₄ ↦ ?_
  obtain ⟨-, rfl⟩ := require_ok h₄
  exact fieldDeclarations_mutating hx ((keepsFields_emitAccess _ _ _).bind fun _ ↦ .pure _)

/-! ## Blocks -/

/-- A block that may be skipped shifts counters when it is entered and when it is left. -/
theorem keepsFields_inBlock {m : Analysis Unit} (h : KeepsFields m) (withFields : Bool) :
    KeepsFields (inBlock withFields m) := by
  have henter : KeepsFields (enterBlock withFields) := by
    have hshift : KeepsFields (modifyEnvironment (·.enterConditional withFields)) :=
      .change fun e ↦ e.fieldDeclarations_shift 1 withFields
    grind [enterBlock, enterConditional]
  have hleave : KeepsFields (leaveConditional withFields) := by
    intro s
    refine keepsFields_get.bind_from fun s₁ s₂ h₁ ↦ ?_
    cases h₁
    exact s.environment.fieldDeclarations_shift (-1) _
  exact henter.bind fun _ ↦ h.bind fun _ ↦ hleave.bind fun _ ↦
    (keepsFields_modifyFrame _).bind fun _ ↦ .pure _

theorem keepsFields_inScope {m : Analysis α} (h : KeepsFields m) : KeepsFields (inScope Γ m) := by
  rw [Composed.inScope_eq]
  exact keepsFields_enterScope.bind fun _ ↦ h.bind fun _ ↦ keepsFields_leaveScope.bind fun _ ↦
    .pure _

/-! ## Constructs -/

section

variable (hrec : rec.KeepsFields)
include hrec

@[grind ←]
theorem keepsFields_operand : KeepsFields (operand Γ rec) := by
  grind [operand, Recursion.KeepsFields]

@[grind ←]
theorem keepsFields_operandFitting (expected : Ty) :
    KeepsFields (operandFitting Γ rec expected) := by
  grind [operandFitting, fitting, Recursion.KeepsFields]

@[grind ←]
theorem keepsFields_storeNew (x : String) : KeepsFields (storeNew Γ rec x span) := by
  grind [storeNew]

theorem keepsFields_declareFrozen : KeepsFields (declareFrozen Γ rec) := by
  grind [declareFrozen]

theorem keepsFields_assign : KeepsFields (assign Γ rec) := by
  refine KeepsFields.bind (keepsFields_reading _) fun ⟨x, span⟩ s ↦ ?_
  refine (keepsFields_resolve? x).bind_from fun found? s₁ h₁ ↦ ?_
  obtain ⟨hx, rfl⟩ := resolve?_ok h₁
  cases found? with
  | none =>
    exact ((keepsFields_storeNew hrec x).bind fun v ↦
      (keepsFields_declare v).bind fun _ ↦ .pure _) s
  | some found =>
    obtain ⟨st, v⟩ := found
    refine fieldDeclarations_mutating hx ((keepsFields_emitAccess _ _ _).bind fun _ ↦ ?_)
    refine (keepsFields_operandFitting hrec v.type).bind fun _ ↦ ?_
    exact (keepsFields_evolve fun e ↦ e.evolves_update_settle x).bind fun _ ↦ .pure _

theorem keepsFields_condition : KeepsFields (condition Γ rec) := by
  have haccepts : KeepsFields (accepts .declareFrozen) := by
    rw [accepts, map_eq_pure_bind]
    exact (keepsFields_reading _).bind fun _ ↦ .pure _
  refine haccepts.bind fun bound ↦ ?_
  split
  · refine keepsFields_variableName.bind fun ⟨x, span⟩ ↦ ?_
    refine (keepsFields_requireUndeclared x).bind fun _ ↦ ?_
    grind
  · grind

theorem keepsFields_forIn (hblock : KeepsFields (conditionalBlock Γ rec)) :
    KeepsFields (forIn Γ rec span) := by
  refine keepsFields_reserve.bind fun opcode ↦ keepsFields_variableName.bind fun ⟨x, span⟩ ↦ ?_
  refine (keepsFields_inScope ?_).bind fun _ ↦ .pure _
  refine keepsFields_newSlot.bind fun slot ↦ (keepsFields_emitNumber _).bind fun _ ↦ ?_
  grind [fillOpcode]

end

end Analysis

open Analysis in
/-- **Whatever is put together from steps and expressions** leaves the declarations of fields
alone. -/
theorem Composed.keepsFields {α : Type} {W : Construct → Prop} {rec : Recursion}
    {m : Recursion → Analysis α} (h : Composed W m) (hrec : rec.KeepsFields) :
    KeepsFields (m rec) := by
  induction h with
  | step h => exact h.keepsFields
  | bind _ _ ih ih' => exact ih.bind ih'
  | expression Γ hint =>
    refine keepsFields_next.bind fun token ↦ ?_
    split
    · exact .pure _
    · exact (keepsFields_modifyFrame _).bind fun _ ↦ (hrec Γ token hint).bind fun _ ↦ .pure _
  | inBlock withFields _ ih => exact keepsFields_inBlock ih withFields
  | readVariable x => exact keepsFields_readVariable x
  | stepVariable => exact keepsFields_stepVariable _ _
  | declareVariable => exact keepsFields_declareVariable
  | assign => exact keepsFields_assign hrec
  | declareFrozen => exact keepsFields_declareFrozen hrec
  | condition => exact keepsFields_condition hrec
  | forIn _ _ _ _ ih => exact keepsFields_forIn hrec ih

namespace Analysis

variable {Γ : Setting} {rec : Recursion}

/-! ## Bodies and closures -/

section

variable (hrec : rec.KeepsFields)
include hrec

theorem keepsFields_body (arguments : List Argument) (captured : List Variable)
    (outerSlots : Nat) : KeepsFields (body Γ rec arguments captured outerSlots) := by
  have hargument (span : Span) (a : Argument) : KeepsFields (declareArgument Γ span a) := by
    grind [declareArgument]
  have htake (span : Span) : KeepsFields (takeOver Γ span captured outerSlots) := by
    have hcopy (first : Nat) (v : Variable) : KeepsFields (declareCaptured Γ span first v) := by
      grind [declareCaptured, requireSlot]
    grind [takeOver]
  refine keepsFields_here.bind fun span ↦ (KeepsFields.forM (hargument span)).bind fun _ ↦ ?_
  refine (htake span).bind fun first ↦ ?_
  refine (composed_bodyStatements (W := fun _ ↦ True).keepsFields hrec).bind fun ending ↦ ?_
  refine keepsFields_get.bind fun s ↦ (keepsFields_recommendFrozen _).bind fun _ ↦ ?_
  refine keepsFields_frame.bind fun f ↦ (keepsFields_require _ _).bind fun _ ↦ ?_
  grind

theorem keepsFields_closure : KeepsFields (closure Γ rec) := by
  refine (composed_closureArguments (W := fun _ ↦ True).keepsFields hrec).bind fun arguments ↦ ?_
  refine (composed_closureResult (W := fun _ ↦ True).keepsFields hrec).bind fun result ↦ ?_
  refine (keepsFields_emit _).bind fun _ ↦ keepsFields_reserve.bind fun slots ↦ ?_
  refine KeepsFields.bind (fun _ ↦ rfl) fun count ↦ keepsFields_get.bind fun outer ↦ ?_
  refine keepsFields_frame.bind fun f ↦ ?_
  refine (KeepsFields.inFrame (keepsFields_body hrec _ _ _)).bind fun summary ↦ ?_
  grind [fillCount, fill]

theorem keepsFields_expressionStep : (expressionStep rec).KeepsFields := by
  intro Γ token hint
  cases h : token.asksFor .blockOpen with
  | true =>
    rw [expressionStep_of_asksFor h nofun]
    refine KeepsFields.bind (fun _ ↦ rfl) fun _ ↦ (keepsFields_modifyFrame _).bind fun _ ↦ ?_
    exact keepsFields_closure hrec
  | false =>
    exact (composed_expressionStep (W := fun _ ↦ True) h (fun _ _ ↦ trivial) hint).keepsFields hrec

end

/-- **No expression changes the declaration of a field.** -/
theorem keepsFields_expression (fuel : Nat) : (expression fuel).KeepsFields := by
  induction fuel with
  | zero => exact fun _ _ _ _ ↦ rfl
  | succ fuel ih => exact keepsFields_expressionStep ih

end Analysis

/-! ## Queries -/

/-- In front of every expression that an analysis asks for the fields are the same. -/
theorem Asks.fieldDeclarations_eq {α : Type} {m : Recursion → Analysis α} {fuel : Nat} {s : State}
    {q : Query} (h : Asks (Analysis.expression fuel) m s q)
    (hm : ∀ rec : Recursion, rec.KeepsFields → KeepsFields (m rec)) :
    q.state.environment.fieldDeclarations = s.environment.fieldDeclarations := by
  have hrec : ((Analysis.expression fuel).failingAt q .exhausted).KeepsFields := by
    intro Γ token hint s'
    by_cases hq : (⟨Γ, token, hint, s'⟩ : Query) = q
    · rw [← hq, Recursion.failingAt, if_pos rfl]
      rfl
    · rw [Recursion.failingAt, if_neg hq]
      exact Analysis.keepsFields_expression fuel Γ token hint s'
  have hfinal := hm _ hrec s
  rw [h.eq_error .exhausted] at hfinal
  exact hfinal

/-- **The fields are the same in front of every expression** that an analysis gets to. -/
theorem Reaches.fieldDeclarations_eq {α : Type} {m : Recursion → Analysis α} {fuel n : Nat}
    {s : State} {q : Query} (h : Reaches m fuel s n q)
    (hm : ∀ rec : Recursion, rec.KeepsFields → KeepsFields (m rec)) :
    q.state.environment.fieldDeclarations = s.environment.fieldDeclarations := by
  induction h with
  | asked hq => exact hq.fieldDeclarations_eq hm
  | nested _ hq ih =>
    exact (hq.fieldDeclarations_eq fun _ hrec ↦
      Analysis.keepsFields_expressionStep hrec _ _ _).trans ih

end Pictograph
