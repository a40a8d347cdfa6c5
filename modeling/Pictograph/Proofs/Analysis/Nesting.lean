import Pictograph.Proofs.Analysis.ClosureCandidates
import Pictograph.Proofs.Scope.CounterBounds

/-!
# How deep an analysis goes

On its way to an expression inside it, an analysis enters blocks that may be skipped. Each of them
counts as one level in the frame and raises the counters by one. Behind the analysis all of them are
left. A closure starts a frame of its own on level zero, but it takes over the counters of the frame
around it as they are.

How many blocks are entered on the way is not said in advance. It shows in the level of the frame,
and the bounds of the counters go up with that level, whatever they are in front of the analysis.

## Main definitions

* `State.Deepens`: from one state to another so many blocks were entered, and the bounds of the
  counters went up by no more.
* `Nests`: an analysis leaves the blocks that it enters, and asks for expressions inside of them.

## Main results

* `Composed.nests`: whatever is put together from steps and expressions nests.
* `Analysis.level_expression`: behind an expression the level is what it was, and bounds last.
* `Query.deepens_of_asks`: an expression that is no closure asks from inside its blocks.
* `Query.counters_of_asks_closure`: a closure asks from inside a frame of its own.
-/

namespace Pictograph

open Analysis

/-- From one state to another `k` blocks that may be skipped were entered, and the bounds of the
counters went up by no more than `k`. -/
structure State.Deepens (k : Nat) (s s' : State) : Prop where
  flowDepth : s'.frame.flowDepth = s.frame.flowDepth + k
  counters : ∀ {bound : Storage → Nat}, (∀ st, 1 ≤ bound st) →
    s.environment.CountersWithin bound → s'.environment.CountersWithin fun st ↦ bound st + k

namespace State.Deepens

variable {k l : Nat} {s s' s'' : State}

theorem trans (h : s.Deepens k s') (h' : s'.Deepens l s'') : s.Deepens (k + l) s'' where
  flowDepth := by rw [h'.flowDepth, h.flowDepth, Nat.add_assoc]
  counters hone hs := by
    have hone' (st : Storage) := Nat.le_trans (hone st) (Nat.le_add_right _ k)
    simpa only [Nat.add_assoc] using h'.counters hone' (h.counters hone hs)

/-- Variables evolve and are declared, and no block is entered. -/
theorem of_extends (he : s.environment.Extends s'.environment)
    (hd : s'.frame.flowDepth = s.frame.flowDepth) : s.Deepens 0 s' :=
  ⟨hd, fun hone hs ↦ hs.extended hone he⟩

theorem of_same (he : s'.environment = s.environment)
    (hd : s'.frame.flowDepth = s.frame.flowDepth) : s.Deepens 0 s' :=
  .of_extends (he ▸ .refl _) hd

theorem of_context (h : s'.context = s.context) : s.Deepens 0 s' :=
  .of_same (congrArg Context.environment h) (congrArg Context.flowDepth h)

theorem of_grows (h : s.context.Grows s'.context) : s.Deepens 0 s' :=
  .of_extends h.environment.toExtends h.flowDepth

theorem refl (s : State) : s.Deepens 0 s := .of_same rfl rfl

end State.Deepens

/-! ## Steps -/

namespace Analysis

variable {α β : Type} {Γ : Setting} {span : Span} {x : Analysis α} {f : α → Analysis β}

/-- Behind a step that succeeds no block is open that was not open in front of it. -/
def Level (x : Analysis α) : Prop := ∀ s a s', x s = .ok a s' → s.Deepens 0 s'

namespace Level

theorem bind (h : Level x) (h' : ∀ a, Level (f a)) : Level (x >>= f) := by
  intro s b s' hrun
  obtain ⟨a, s₁, ha, hb⟩ := bind_ok hrun
  exact (h s a s₁ ha).trans (h' a s₁ b s' hb)

theorem ite {c : Prop} [Decidable c] {y : Analysis α} (h : Level x) (h' : Level y) :
    Level (if c then x else y) := by
  split
  · exact h
  · exact h'

theorem forM {l : List β} {g : β → Analysis Unit} (h : ∀ b, Level (g b)) : Level (l.forM g) := by
  induction l with
  | nil =>
    intro s _ s' hrun
    obtain ⟨-, rfl⟩ := pure_ok hrun
    exact .refl s
  | cons b l ih => exact .bind (h b) fun _ ↦ ih

/-- A step that leaves the variables alone and opens no block. -/
theorem of_same (h : ∀ s a s', x s = .ok a s' → s'.environment = s.environment
    ∧ s'.frame.flowDepth = s.frame.flowDepth) : Level x :=
  fun s a s' hrun ↦ .of_same (h s a s' hrun).1 (h s a s' hrun).2

/-- A step that leaves the state as it is. -/
theorem of_eq (h : ∀ s a s', x s = .ok a s' → s = s') : Level x :=
  fun s a s' hrun ↦ h s a s' hrun ▸ .refl s

theorem pure (a : α) : Level (Pure.pure a : Analysis α) := .of_eq fun _ _ _ h ↦ (pure_ok h).2

theorem get : Level (get : Analysis State) := .of_eq <| by rintro s _ _ ⟨⟩; rfl

theorem require (condition : Bool) (cause : Cause) (span : Span) :
    Level (require condition cause span) := .of_eq fun _ _ _ h ↦ (require_ok h).2

theorem demand (value? : Option α) (cause : Cause) (span : Span) :
    Level (demand value? cause span) := .of_eq fun _ _ _ h ↦ (demand_ok h).2

theorem lift (e : Except Fault α) : Level (lift e) := .of_eq fun _ _ _ h ↦ (lift_ok h).2

theorem resolve? (x : String) : Level (resolve? x) := .of_eq fun _ _ _ h ↦ (resolve?_ok h).2

theorem reading (r : Reading α) : Level (reading r) :=
  fun _ _ _ h ↦ .of_context (keeps_reading h).context

theorem accepts (construct : Construct) : Level (accepts construct) :=
  fun _ _ _ h ↦ .of_context (keeps_accepts h).context

theorem assemble (g : Assembler → Assembler) : Level (assemble g) :=
  .of_same <| by rintro s _ _ ⟨⟩; exact ⟨rfl, rfl⟩

theorem emitWord (w : UInt32) : Level (emitWord w) := .assemble _

theorem emitNumber (n : Nat) : Level (emitNumber n) := .emitWord _

theorem filling (g : Assembler → Option Assembler) : Level (filling g) := by
  refine .of_same fun s _ s' h ↦ ?_
  obtain ⟨a, -, rfl⟩ := filling_ok h
  exact ⟨rfl, rfl⟩

theorem modifyFrame {g : Frame → Frame} (h : ∀ fr, (g fr).flowDepth = fr.flowDepth) :
    Level (modifyFrame g) :=
  .of_same <| by rintro s _ _ ⟨⟩; exact ⟨rfl, h s.frame⟩

theorem modifyEnvironment {g : Environment → Environment} (h : ∀ e : Environment, e.Extends (g e)) :
    Level (modifyEnvironment g) := by
  rintro s _ _ ⟨⟩
  exact .of_extends (h s.environment) rfl

/-- What is declared has no value, or it was just given to it. -/
theorem declare {v : Variable} (hv : 0 ≤ v.readiness ∧ v.readiness ≤ 1) : Level (declare v) := by
  intro s _ s' h
  obtain ⟨e, he, rfl⟩ := declare_ok h
  exact .of_extends (.declare he hv) rfl

theorem newSlot (Γ : Setting) (span : Span) : Level (newSlot Γ span) := by
  intro s slot s' h
  obtain ⟨-, -, -, -, hcontext, -⟩ := newSlot_ok h
  exact .of_same (congrArg Context.environment hcontext) (congrArg Context.flowDepth hcontext)

theorem requireUndeclared (x : String) (span : Span) : Level (requireUndeclared x span) :=
  .bind .get fun _ ↦ .require _ _ _

theorem emitAccess (storage : Storage) (action : Access) (slot : Nat) :
    Level (emitAccess storage action slot) :=
  .bind (.assemble _) fun _ ↦
    .ite (.bind (.modifyFrame fun _ ↦ rfl) fun _ ↦ .emitNumber _) (.emitNumber _)

theorem overwrite (x : String) (span : Span) : Level (overwrite x span) := by
  intro s found? s' h
  obtain ⟨hx, ⟨-, rfl⟩ | ⟨st, v, w, rfl, hw, rfl⟩⟩ := overwrite_ok h
  · exact .refl s'
  · exact .of_grows (.mutate hx hw)

theorem stepVariable (construct : Construct) (action : Access) :
    Level (stepVariable Γ construct action) := by
  intro s t s' h
  obtain ⟨x, p, s₁, st, v, w, hname, hx, hw, haccess⟩ := stepVariable_ok h
  have hread : s.Deepens 0 s₁ := .of_context (keeps_variableName hname).context
  have hwritten : s₁.Deepens 0 { s₁ with environment := s₁.environment.update x fun _ ↦ w } :=
    .of_grows (.mutate hx hw)
  exact (hread.trans hwritten).trans (emitAccess st action v.slot _ _ _ haccess)

theorem leaveScope (Γ : Setting) : Level (leaveScope Γ) := by
  intro s u s' h
  rw [leaveScope_eq] at h
  cases hpop : s.environment.pop? with
  | none =>
    rw [hpop] at h
    cases h
    exact .refl s
  | some popped =>
    rw [hpop, Option.elim_some, recommendFrozen_eq] at h
    cases h
    refine ⟨rfl, fun _ hs ↦ ?_⟩
    rw [← Environment.leave_of_some hpop]
    exact hs.leave

/-- **A step that has to do with no particular variable** opens no block. -/
theorem step (h : Step x) : Level x := by
  cases h with
  | pure a => exact .pure a
  | throw => exact fun _ _ _ h ↦ nomatch h
  | reading => exact .reading _
  | here | remaining | frame => exact .bind .get fun _ ↦ .pure _
  | deadPlace? =>
    refine .of_eq fun s _ s' h ↦ ?_
    rw [deadPlace?_eq] at h
    cases h
    rfl
  | setLine | emit | emitWord => exact .assemble _
  | reserve | reserveCount | warn | intern =>
    exact .of_same <| by rintro s _ _ ⟨⟩; exact ⟨rfl, rfl⟩
  | fill | fillOpcode | fillCount => exact .filling _
  | modifyFrame h => exact .modifyFrame fun fr ↦ (h fr).2
  | requireComplete => exact .of_eq fun _ _ _ h ↦ (requireComplete_ok h).1
  | enterScope =>
    rintro s _ _ ⟨⟩
    exact ⟨rfl, fun _ hs ↦ hs.push⟩
  | leaveScope => exact .leaveScope _
  | settleEach slots =>
    have hsettle (e : Environment) : e.Grows 0 0 (slots.foldl Environment.settle e) :=
      .foldl_settle slots e
    exact .modifyEnvironment fun e ↦ (hsettle e).toExtends

end Level

end Analysis

/-! ## Blocks -/

namespace Analysis

variable {s s' : State} {withFields : Bool}

theorem enterBlock_ok {u : Unit} (h : enterBlock withFields s = .ok u s') :
    s' = { s with
      environment := s.environment.enterConditional withFields
      frame := { s.frame with flowDepth := s.frame.flowDepth + 1 } } := by
  obtain ⟨_, s₁, henter, h⟩ := bind_ok h
  cases h
  obtain ⟨s₀, s₂, hget, henter⟩ := bind_ok henter
  cases hget
  dsimp only at henter
  split at henter
  · obtain ⟨_, _, hthrow, -⟩ := bind_ok henter
    cases hthrow
  · cases henter
    rfl

/-- Entering a block goes one level deeper. -/
theorem deepens_enterBlock {u : Unit} (h : enterBlock withFields s = .ok u s') :
    s.Deepens 1 s' := by
  obtain rfl := enterBlock_ok h
  exact ⟨rfl, fun _ hs ↦ hs.enterConditional.mono (Storage.raised_le withFields _)⟩

end Analysis

/-! ## Expressions -/

/-- Behind every expression no block is open that was not open in front of it. -/
def Recursion.Level (rec : Recursion) : Prop := ∀ Γ token hint, Analysis.Level (rec Γ token hint)

/-- **Behind an expression the level is what it was**, and bounds of counters last. -/
theorem Analysis.level_expression (fuel : Nat) : (expression fuel).Level := by
  intro Γ token hint s t s' h
  have hemitting := emitting_of_ok (m := fun r ↦ r Γ token hint) h
  obtain ⟨o, hwrites, -⟩ := hemitting.call
  exact .of_grows hwrites.emits.grows

/-- An analysis leaves the blocks that it enters, and asks for expressions inside of them. -/
structure Nests {α : Type} (rec : Recursion) (m : Recursion → Analysis α) : Prop where
  traverses : Traverses State.Onward rec m
  level : Level (m rec)
  asks : ∀ {s q}, Asks rec m s q → ∃ k, s.Deepens k q.state

namespace Nests

variable {α β : Type} {rec : Recursion} {m : Recursion → Analysis α}
  {f : Recursion → α → Analysis β} {Γ : Setting} {span : Span} {x : Analysis α}

/-- A step that asks nothing. -/
theorem const (hx : x.GoesOnward) (h : Level x) : Nests rec fun _ ↦ x :=
  ⟨.const hx, h, fun hq ↦ absurd hq Asks.not_const⟩

theorem step (h : Step x) : Nests rec fun _ ↦ x := .const (.step h) (.step h)

theorem pure (a : α) : Nests rec fun _ ↦ (Pure.pure a : Analysis α) := .step (.pure a)

theorem bind (h : Nests rec m) (h' : ∀ a, Nests rec fun r ↦ f r a) :
    Nests rec fun r ↦ m r >>= f r where
  traverses := h.traverses.bind fun a ↦ (h' a).traverses
  level := h.level.bind fun a ↦ (h' a).level
  asks {s q} hq := by
    rcases h.traverses.asks_bind hq with hq | ⟨a, s₁, ha, hq⟩
    · exact h.asks hq
    · obtain ⟨k, hk⟩ := (h' a).asks hq
      exact ⟨_, (h.level s a s₁ ha).trans hk⟩

theorem ite {c : Prop} [Decidable c] {m' : Recursion → Analysis α} (h : Nests rec m)
    (h' : Nests rec m') : Nests rec fun r ↦ if c then m r else m' r := by
  by_cases hc : c
  · simpa only [if_pos hc] using h
  · simpa only [if_neg hc] using h'

theorem call (hrec : rec.GoesOnward) (hlevel : rec.Level) {token : Token} {hint : Option Ty} :
    Nests rec fun r ↦ r Γ token hint where
  traverses := .call hrec
  level := hlevel Γ token hint
  asks {s q} hq := by
    obtain rfl := hq.eq_of_call
    exact ⟨0, .refl s⟩

theorem inScope (h : Nests rec m) : Nests rec fun r ↦ inScope Γ (m r) := by
  simp only [Composed.inScope_eq]
  exact .bind (.step .enterScope) fun _ ↦ .bind h fun _ ↦ .bind (.step (.leaveScope _)) fun _ ↦
    .pure _

/-- **A block that may be skipped** is one level deeper, and it is left again. The fields keep their
bound if the block leaves them alone. -/
theorem inBlock {m : Recursion → Analysis Unit} (h : Nests rec m) (withFields : Bool) :
    Nests rec fun r ↦ inBlock withFields (m r) where
  traverses := h.traverses.inBlock withFields
  level s settled s' hrun := by
    obtain ⟨_, s₁, henter, hrun⟩ := bind_ok hrun
    obtain ⟨_, s₂, hm, hleave⟩ := bind_ok hrun
    obtain rfl := enterBlock_ok henter
    cases hleave
    obtain ⟨hdepth, hcounters⟩ := h.level _ _ _ hm
    refine ⟨?_, fun {bound} hone hs ↦ ?_⟩
    · change s₂.frame.flowDepth - 1 = _
      rw [hdepth]
      exact Nat.add_sub_cancel s.frame.flowDepth 1
    · have hone' (st : Storage) := Nat.le_trans (hone st) (Storage.le_raised withFields bound st)
      have hend := hcounters hone' hs.enterConditional
      exact hend.leaveConditional
  asks {s q} hq := by
    obtain ⟨_, s₁, henter, hq⟩ := hq.of_const_bind
    obtain ⟨k, hk⟩ := h.asks (h.traverses.asks_of_bind_const hq)
    exact ⟨1 + k, (deepens_enterBlock henter).trans hk⟩

/-! ### Constructs that deal with variables -/

theorem emit (op : Opcode) : Nests rec fun _ ↦ emit op := .const (.emit op) (.assemble _)

theorem emitNumber (n : Nat) : Nests rec fun _ ↦ emitNumber n :=
  .const (.emitNumber n) (.emitNumber n)

theorem emitAccess (storage : Storage) (action : Access) (slot : Nat) :
    Nests rec fun _ ↦ emitAccess storage action slot :=
  .const (.emitAccess _ _ _) (.emitAccess _ _ _)

theorem newSlot (span : Span) : Nests rec fun _ ↦ newSlot Γ span :=
  .const .newSlot (.newSlot _ _)

theorem variableName : Nests rec fun _ ↦ variableName := .step (.reading .variableName)

theorem require (condition : Bool) (cause : Cause) (span : Span) :
    Nests rec fun _ ↦ require condition cause span :=
  .const (.require _ _) (.require _ _ _)

theorem requireUndeclared (x : String) (span : Span) :
    Nests rec fun _ ↦ requireUndeclared x span :=
  .const (.requireUndeclared _) (.requireUndeclared _ _)

theorem declare {v : Variable} (hv : 0 ≤ v.readiness ∧ v.readiness ≤ 1) :
    Nests rec fun _ ↦ Analysis.declare v :=
  .const (.declare v) (.declare hv)

/-- A variable with a value that was just given to it. -/
theorem declare_ready {v : Variable} (hv : v.readiness = 1) :
    Nests rec fun _ ↦ Analysis.declare v := .declare (by omega)

theorem readVariable (x : String) : Nests rec fun _ ↦ readVariable x span :=
  .bind (.const (.resolve? _) (.resolve? _)) fun _ ↦
    .bind (.const (.demand _ _) (.demand _ _ _)) fun _ ↦
    .bind (.const (.lift _) (.lift _)) fun _ ↦ .bind (.emitAccess _ _ _) fun _ ↦ .pure _

theorem declareVariable : Nests rec fun _ ↦ declareVariable Γ := by
  refine .bind .variableName fun _ ↦ .bind (.requireUndeclared _ _) fun _ ↦
    .bind (.step (.reading (Γ.catalogue.composed_annotated _ _ _))) fun t ↦
    .bind (.newSlot _) fun slot ↦ .bind (.declare ?_) fun _ ↦ .pure _
  split
  · exact ⟨Int.one_nonneg, Int.le_refl 1⟩
  · exact ⟨Int.le_refl 0, Int.one_nonneg⟩

section

variable (hrec : rec.GoesOnward) (hlevel : rec.Level)

include hrec hlevel

theorem operand : Nests rec fun r ↦ operand Γ r :=
  .bind (.step (.reading .next)) fun _ ↦ .call hrec hlevel

theorem operandFitting (expected : Ty) : Nests rec fun r ↦ operandFitting Γ r expected :=
  .bind (.step (.reading .next)) fun _ ↦ .bind (.call hrec hlevel) fun _ ↦
    .bind (.require _ _ _) fun _ ↦ .pure _

theorem assign : Nests rec fun r ↦ assign Γ r := by
  simp only [assign_eq]
  refine .bind .variableName fun (x, p) ↦ .bind (.const (.overwrite x p) (.overwrite x p))
    fun found? ↦ ?_
  cases found? with
  | none =>
    simp only [Option.elim, storeNew, bind_assoc, pure_bind]
    exact .bind (.emit _) fun _ ↦ .bind (.newSlot _) fun _ ↦ .bind (.emitNumber _) fun _ ↦
      .bind (.operand hrec hlevel) fun _ ↦ .bind (.declare_ready rfl) fun _ ↦ .pure _
  | some found =>
    exact .bind (.emitAccess _ _ _) fun _ ↦ .bind (.operandFitting hrec hlevel _) fun _ ↦
      .bind (.const (.modifyEnvironment _) (.modifyEnvironment fun e ↦
        (e.evolves_update_settle x).toExtends)) fun _ ↦ .pure _

theorem declareFrozen : Nests rec fun r ↦ declareFrozen Γ r := by
  simp only [Analysis.declareFrozen, storeNew, bind_assoc, pure_bind]
  exact .bind .variableName fun _ ↦ .bind (.requireUndeclared _ _) fun _ ↦ .bind (.emit _) fun _ ↦
    .bind (.newSlot _) fun _ ↦ .bind (.emitNumber _) fun _ ↦
    .bind (.operand hrec hlevel) fun _ ↦ .bind (.declare_ready rfl) fun _ ↦ .pure _

theorem condition : Nests rec fun r ↦ condition Γ r :=
  .bind (.const (.accepts _) (.accepts _)) fun _ ↦ .ite
    (.bind .variableName fun _ ↦ .bind (.requireUndeclared _ _) fun _ ↦ .bind (.emit _) fun _ ↦
      .bind (.newSlot _) fun _ ↦ .bind (.emitNumber _) fun _ ↦ .bind (.step .here) fun _ ↦
      .bind (.operand hrec hlevel) fun _ ↦ .bind (.require _ _ _) fun _ ↦ .declare_ready rfl)
    (.bind (.operandFitting hrec hlevel _) fun _ ↦ .pure _)

theorem forIn (h : Nests rec fun r ↦ conditionalBlock Γ r) : Nests rec fun r ↦ forIn Γ r span :=
  .bind (.step .reserve) fun _ ↦ .bind .variableName fun _ ↦ .bind (.inScope
    (.bind (.newSlot _) fun _ ↦ .bind (.emitNumber _) fun _ ↦ .bind (.newSlot _) fun _ ↦
      .bind (.emitNumber _) fun _ ↦ .bind (.operandFitting hrec hlevel _) fun _ ↦
      .bind (.const (.demand _ _) (.demand _ _ _)) fun _ ↦
      .bind (.const (.filling Assembler.preserves_fillOpcode?) (.filling _)) fun _ ↦
      .bind (.declare_ready rfl) fun _ ↦ h)) fun _ ↦ .pure _

end

end Nests

/-- **Whatever is put together from steps and expressions nests.** -/
theorem Composed.nests {α : Type} {W : Construct → Prop} {rec : Recursion}
    {m : Recursion → Analysis α} (hrec : rec.GoesOnward) (hlevel : rec.Level) (h : Composed W m) :
    Nests rec m := by
  induction h with
  | step h => exact .step h
  | bind _ _ ih ih' => exact ih.bind ih'
  | expression Γ hint _ hbefore =>
    exact .bind (.step (.reading .next)) fun _ ↦ .ite (.pure _)
      (.bind (.step (.modifyFrame hbefore)) fun _ ↦ .bind (.call hrec hlevel) fun _ ↦ .pure _)
  | inBlock withFields _ ih => exact ih.inBlock withFields
  | readVariable => exact .readVariable _
  | stepVariable Γ construct h hc hw =>
    exact .const (Traverses.composed hrec (.stepVariable Γ construct h hc hw)).onward
      (.stepVariable _ _)
  | declareVariable => exact .declareVariable
  | assign => exact .assign hrec hlevel
  | declareFrozen => exact .declareFrozen hrec hlevel
  | condition => exact .condition hrec hlevel
  | forIn _ _ _ _ ih => exact .forIn hrec hlevel ih

/-- An expression that is no closure asks from inside the blocks that it entered. -/
theorem Query.deepens_of_asks {n : Nat} {q q' : Query} (h : q.token.asksFor .blockOpen = false)
    (hq : Asks (expression n) (fun r ↦ expressionStep r q.setting q.token q.hint) q.state q') :
    ∃ k, q.state.Deepens k q'.state :=
  (composed_expressionStep (W := fun _ ↦ True) h (fun _ _ ↦ trivial) q.hint).nests
    (goesOnward_expression n) (level_expression n) |>.asks hq

/-! ## Bodies and closures -/

namespace Analysis

variable {Γ : Setting} {rec : Recursion} {arguments : List Argument} {captured : List Variable}
  {outerSlots : Nat} {s s' : State} {bound : Storage → Nat}

/-- A body starts with arguments that have a value, and with copies of what it takes over. -/
theorem counters_enterBody {first : Nat} (hone : ∀ st, 1 ≤ bound st)
    (hs : s.environment.CountersWithin bound)
    (hcaptured : ∀ v ∈ captured, 0 ≤ v.readiness ∧ v.readiness ≤ bound .frame)
    (h : enterBody Γ arguments captured outerSlots s = .ok first s') :
    s'.environment.CountersWithin bound ∧ s'.frame.flowDepth = s.frame.flowDepth := by
  obtain ⟨here', s₁, hhere, h⟩ := bind_ok h
  cases hhere
  obtain ⟨_, s₂, hdeclare, htake⟩ := bind_ok h
  have harguments (span : Span) : Level (arguments.forM (declareArgument Γ span)) :=
    .forM fun a ↦ .bind (.newSlot _ _) fun slot ↦ .declare ⟨Int.one_nonneg, Int.le_refl 1⟩
  obtain ⟨hdepth, hcounters⟩ := harguments _ _ _ _ hdeclare
  obtain ⟨vs, hvs, -, -, -, hcopies⟩ := declares_takeOver htake
  have henvironment : s'.environment
      = { s₂.environment with current := ⟨s₂.environment.current.declared ++ vs⟩ } :=
    congrArg Context.environment hvs.context
  refine ⟨?_, (congrArg Context.flowDepth hvs.context).trans hdepth⟩
  rw [henvironment]
  refine (hcounters hone hs).append fun v hv ↦ ?_
  obtain ⟨u, hu, rfl⟩ := hcopies v hv
  exact hcaptured u hu

/-- What a body asks, it asks from inside the blocks of its own frame. -/
theorem counters_of_asks_body (hrec : rec.GoesOnward) (hlevel : rec.Level)
    (hstart : s.frame.flowDepth = 0) (hone : ∀ st, 1 ≤ bound st)
    (hs : s.environment.CountersWithin bound)
    (hcaptured : ∀ v ∈ captured, 0 ≤ v.readiness ∧ v.readiness ≤ bound .frame) {q : Query}
    (hq : Asks rec (fun r ↦ body Γ r arguments captured outerSlots) s q) :
    q.state.environment.CountersWithin fun st ↦ bound st + q.state.frame.flowDepth := by
  obtain ⟨first, s₁, henter, hq⟩ := exists_of_asks_body hrec hq
  obtain ⟨hcounters, hdepth⟩ := counters_enterBody hone hs hcaptured henter
  obtain ⟨k, hk⟩ := (composed_bodyStatements (W := fun _ ↦ True)).nests hrec hlevel |>.asks hq
  rw [hk.flowDepth, hdepth, hstart, Nat.zero_add]
  exact hk.counters hone hcounters

end Analysis

/-- **A closure asks from inside a frame of its own**, which starts on level zero with the counters
of the frame around it. -/
theorem Query.counters_of_asks_closure {n : Nat} {q q' : Query} (h : q.token.asksFor .blockOpen)
    (hq : Asks (expression n) (fun r ↦ expressionStep r q.setting q.token q.hint) q.state q')
    {bound : Storage → Nat} (hone : ∀ st, 1 ≤ bound st)
    (hs : q.state.environment.CountersWithin bound) :
    q'.state.environment.CountersWithin fun st ↦ bound st + q'.state.frame.flowDepth := by
  have hrec := goesOnward_expression n
  obtain ⟨x, s₃, hopen, hq⟩ := exists_of_asks_closure hrec (hq.begun h nofun)
  obtain ⟨henvironment, -⟩ := openClosure_ok hopen
  have hs₃ : s₃.environment.CountersWithin bound := henvironment ▸ hs
  refine counters_of_asks_body hrec (level_expression n) rfl hone hs₃.start (fun v hv ↦ ?_) hq
  exact hs₃ .frame v ((Environment.withoutHidden_sublist [] _).subset hv)

end Pictograph
