import Pictograph.Proofs.Code.Outline
import Pictograph.Proofs.Scope.Evolution

/-!
# What a body emits

An accepted body turns a context, which is what the analysis knows about variables at one place of
the code, into another one, and it emits an outline on the way. This module describes which outlines
those are by rules, one for each way of writing an instruction, with what the analysis checks and
what it records at that place. The rules leave out what has no influence on the questions asked
about code here: types of values, tokens, warnings, source lines.

## Main definitions

* `Context` is what the analysis knows about variables and about the frame.
* `Emits` holds the rules.

## Main results

* `Emits.grows`: whatever is emitted, variables evolve, the innermost scope grows and slots are
  handed out upwards.
-/

namespace Pictograph

/-! ## Contexts -/

/-- What the analysis knows at one place of the code. -/
structure Context where
  /-- The variables within reach. -/
  environment : Environment
  /-- How many slots were handed out. -/
  slotCount : Nat
  /-- How many conditional blocks are open. -/
  flowDepth : Nat
  /-- Whether the superclass was initialized. -/
  calledSuper : Bool
  /-- Whether the frame returned unconditionally. -/
  hasReturned : Bool

namespace Context

/-- The context with more slots handed out. -/
def addSlots (c : Context) (n : Nat) : Context := { c with slotCount := c.slotCount + n }

/-- The context with other variables. -/
def withEnvironment (c : Context) (e : Environment) : Context := { c with environment := e }

/-- The context inside a new scope. -/
def enterScope (c : Context) : Context := c.withEnvironment (c.environment.push .empty)

/-- The context around the innermost scope. -/
def leaveScope (c : Context) : Context := c.withEnvironment c.environment.leave

/-- The context inside a conditional block. -/
def enterBlock (withFields : Bool) (c : Context) : Context :=
  { c with environment := c.environment.enterConditional withFields, flowDepth := c.flowDepth + 1 }

/-- The context behind a conditional block. -/
def leaveBlock (withFields : Bool) (c : Context) : Context :=
  { c with
    environment := c.environment.shift (-1) withFields
    flowDepth := c.flowDepth - 1
    hasReturned := false }

/-- The context with other fields. -/
def withFields (c : Context) (fields : Option Scope) : Context :=
  c.withEnvironment { c.environment with fields }

/-- The context behind a chain of branches of which one is taken for certain: the slots that every
branch reports have a value. -/
def settleEach (c : Context) (reports : List (List Slot)) : Context :=
  c.withEnvironment ((Analysis.inEach reports).foldl Environment.settle c.environment)

/-- A context that a body starts in: the variables are in slots that have a value from the start. -/
structure IsStart (given : Nat) (c : Context) : Prop where
  outer : c.environment.outer = []
  nodup : (c.environment.current.declared.map (·.slot)).Nodup
  lt : ∀ v ∈ c.environment.current.declared, v.slot < given
  slotCount : c.slotCount = given

/-- A closure with so many arguments starts in `c₀`: its arguments are frozen, the slots of the
frame around it stand behind them, and the copies in these are frozen if the variables are. -/
structure HandsOver (c : Context) (arguments : Nat) (c₀ : Context) : Prop where
  slotCount : c₀.slotCount = arguments + c.slotCount
  frozen : ∀ v, c₀.environment.Holds .frame v → v.slot < arguments → v.isFrozen
  copies : ∀ v v', c.environment.Holds .frame v → c₀.environment.Holds .frame v' →
    v'.slot = arguments + v.slot → v'.isFrozen = v.isFrozen

/-- What may happen to a context. -/
structure Grows (c c' : Context) : Prop where
  environment : c.environment.Grows c.slotCount c'.slotCount c'.environment
  slotCount : c.slotCount ≤ c'.slotCount
  flowDepth : c'.flowDepth = c.flowDepth
  calledSuper : c.calledSuper → c'.calledSuper

namespace Grows

variable {c c' c'' : Context}

theorem refl (c : Context) : c.Grows c := ⟨.refl _ _ _, Nat.le_refl _, rfl, id⟩

theorem trans (h : c.Grows c') (h' : c'.Grows c'') : c.Grows c'' where
  environment := h.environment.trans h'.environment h.slotCount h'.slotCount
  slotCount := Nat.le_trans h.slotCount h'.slotCount
  flowDepth := h'.flowDepth.trans h.flowDepth
  calledSuper := h'.calledSuper ∘ h.calledSuper

theorem addSlots (c : Context) (n : Nat) : c.Grows (c.addSlots n) :=
  ⟨.refl _ _ _, Nat.le_add_right _ _, rfl, id⟩

theorem withEnvironment {e : Environment}
    (h : c.environment.Grows c.slotCount c.slotCount e) : c.Grows (c.withEnvironment e) :=
  ⟨h, Nat.le_refl _, rfl, id⟩

/-- A scope may be left again. -/
theorem scope (h : c.enterScope.Grows c') : c.Grows c'.leaveScope :=
  ⟨h.environment.leave, h.slotCount, h.flowDepth, h.calledSuper⟩

/-- A conditional block may be left again. -/
theorem block {withFields : Bool} (h : (c.enterBlock withFields).Grows c') :
    c.Grows (c'.leaveBlock withFields) where
  environment := h.environment.shift
  slotCount := h.slotCount
  flowDepth := by rw [leaveBlock, h.flowDepth]; exact Nat.add_sub_cancel _ _
  calledSuper := h.calledSuper

/-- The variable that a name refers to may be written. -/
theorem mutate {x : String} {st : Storage} {v mutated : Variable} {span : Span}
    (hx : c.environment.resolve? x = some (st, v)) (hm : v.mutate span = .ok mutated) :
    c.Grows (c.withEnvironment (c.environment.update x fun _ ↦ mutated)) := by
  refine withEnvironment (Environment.grows_update fun st' v' hv ↦ ?_)
  rw [hx] at hv
  cases hv
  exact Variable.mutate_evolves hm

theorem settleEach (c : Context) (reports : List (List Slot)) :
    c.Grows (c.settleEach reports) :=
  .withEnvironment (.foldl_settle _ _)

/-- A variable may be declared later than its slot was handed out. -/
theorem declare {n : Nat} {v : Variable} {e : Environment} (h : (c.addSlots n).Grows c')
    (hd : c'.environment.declare v = .ok e) (hl : c.slotCount ≤ v.slot)
    (hh : v.slot < c.slotCount + n) (hr : 0 ≤ v.readiness ∧ v.readiness ≤ 1) :
    c.Grows (c'.withEnvironment e) where
  environment := h.environment.declare hd hl hh h.slotCount hr
  slotCount := Nat.le_trans (Nat.le_add_right _ _) h.slotCount
  flowDepth := h.flowDepth
  calledSuper := h.calledSuper

/-- A variable may be declared in the first of the slots that were handed out last. -/
theorem declareFirst {n : Nat} {v : Variable} {e : Environment}
    (h : (c.addSlots (n + 1)).Grows c') (hd : c'.environment.declare v = .ok e)
    (hs : v.slot = c.slotCount) (hr : 0 ≤ v.readiness ∧ v.readiness ≤ 1) :
    c.Grows (c'.withEnvironment e) :=
  h.declare hd (Nat.le_of_eq hs.symm) (hs ▸ Nat.lt_add_of_pos_right n.succ_pos) hr

/-- A branch has a scope around its condition and its block. -/
theorem branch {withFields : Bool} (h : c.enterScope.Grows c')
    (h' : (c'.enterBlock withFields).Grows c'') :
    c.Grows (c''.leaveBlock withFields).leaveScope :=
  (h.trans h'.block).scope

end Grows

/-! ### Slots below a bound -/

/-- The variables of the frame are in slots below a bound. -/
def Below (bound : Nat) (c : Context) : Prop :=
  ∀ v, c.environment.Holds .frame v → v.slot < bound

/-! ### Distinct slots -/

/-- The slots of the variables are their own. -/
def Distinct (c : Context) : Prop := c.environment.Distinct c.slotCount

namespace Distinct

variable {c c' : Context}

theorem grows (h : c.Distinct) (hg : c.Grows c') : c'.Distinct :=
  Environment.Distinct.grows h hg.environment hg.slotCount

theorem addSlots (h : c.Distinct) (n : Nat) : (c.addSlots n).Distinct :=
  h.grows (.addSlots c n)

theorem enterScope (h : c.Distinct) : c.enterScope.Distinct :=
  ⟨h.frame, h.object, fun v hv ↦ h.lt v (Environment.holds_push.mp hv)⟩

theorem enterBlock (h : c.Distinct) (withFields : Bool) : (c.enterBlock withFields).Distinct :=
  Environment.Distinct.shift h 1 withFields

end Distinct

/-- A body starts with slots of their own if the fields have such. -/
theorem IsStart.distinct {given : Nat} {c : Context} (h : c.IsStart given)
    (hf : ∀ s, c.environment.fields = some s → (s.declared.map (·.slot)).Nodup) : c.Distinct := by
  refine ⟨?_, hf, ?_⟩
  · rw [Environment.locals, h.outer, List.flatMap_singleton]
    exact h.nodup
  · rintro v ⟨s, hs, hv⟩
    rw [Environment.locals, h.outer, List.mem_singleton] at hs
    subst hs
    rw [h.slotCount]
    exact h.lt v hv

end Context

/-! ## Rules -/

/-- What the rules say about the places of a body beyond the code itself. -/
structure Pins where
  /-- The variable that is read at an offset, and where it is stored. -/
  reads : Nat → Storage → Variable → Prop
  /-- The assignment at an offset counts as one to a slot that it does not write. -/
  strays : Nat → Slot → Prop
  /-- A variable is stored to at an offset. -/
  stores : Nat → Variable → Prop
  /-- The closure at an offset has so many arguments, and this is the context around it. -/
  captures : Nat → Nat → Context → Prop

/-- A piece of code. -/
inductive Part where
  /-- An outline. -/
  | code (o : Outline)
  /-- The rest of a chain of branches with the slots that each of them reports, and whether it ends
  with a branch without a condition. -/
  | chain (rest : Outline) (reports : List (List Slot)) (isTotal : Bool)

/-- The instructions of a piece of code that starts at an offset. -/
def Part.survey (k : Nat) : Part → List Located
  | .code o | .chain o _ _ => Outline.survey o k

/-- Whether an instruction has no effect on variables and on the superclass, no control flow of its
own, and does not end the frame. -/
def Opcode.isOrdinary : Opcode → Bool
  | access .. | selfReference | superInitializer | conditionalBind | repeatWhile | ifChain
  | forIn _ | elseIfBranch | elseBranch | closure | returning => false
  | _ => true

theorem Opcode.ne_returning_of_isOrdinary {op : Opcode} (h : op.isOrdinary) :
    (op == .returning) = false := by
  cases op <;> first | rfl | cases h

/-- Whether the superclass has to be initialized. -/
def Setting.initializesSuper (Γ : Setting) : Bool := Γ.initializer?.isSome && Γ.hasSuperclass

/-- The slots below this bound may be handed out. -/
def Setting.slotBound (Γ : Setting) : Nat := min Γ.options.slotLimit Slot.count

open Context in
/-- In a setting, a piece of code at an offset takes one context to another. -/
inductive Emits (π : Pins) : Setting → Part → Nat → Context → Context → Prop
  /-- Nothing is emitted. -/
  | nil {Γ k c} : Emits π Γ (.code []) k c c
  /-- Expressions stand one behind the other. -/
  | append {Γ k c c₁ c₂} {o o' : Outline} : Emits π Γ (.code o) k c c₁ →
      Emits π Γ (.code o') (k + o.size) c₁ c₂ → Emits π Γ (.code (o ++ o')) k c c₂
  /-- An instruction with operands. -/
  | ordinary {Γ k c c₁ c₂ op counted words} {receiver operands : Outline} (h : op.isOrdinary) :
      Emits π Γ (.code receiver) (k + 1 + counted.size) c c₁ →
      Emits π Γ (.code operands) (k + 1 + counted.size + receiver.size + words.length) c₁ c₂ →
      Emits π Γ (.code [.instruction op counted receiver words operands]) k c c₂
  /-- A variable is read, which has to have a value. -/
  | load {Γ k c x st v} (hx : c.environment.resolve? x = some (st, v)) (hr : v.isReady)
      (hπ : π.reads k st v) :
      Emits π Γ (.code [.plain (.access st .load) [UInt32.ofNat v.slot] []]) k c c
  /-- A variable is incremented or decremented, which has to have a value. -/
  | step {Γ k c x st v action span mutated} (hx : c.environment.resolve? x = some (st, v))
      (hr : v.isReady) (hm : v.mutate span = .ok mutated) (hπ : π.reads k st v)
      (ha : action = .increment ∨ action = .decrement) :
      Emits π Γ (.code [.plain (.access st action) [UInt32.ofNat v.slot] []]) k c
        (c.withEnvironment (c.environment.update x fun _ ↦ mutated))
  /-- A variable is declared without code. It has a value at once only if it is optional. -/
  | declare {Γ k c v e} (hs : v.slot = c.slotCount) (hl : v.slot < Γ.slotBound)
      (hr : 0 ≤ v.readiness ∧ v.readiness ≤ 1) (ho : v.isReady → v.type.isOptional)
      (hd : c.environment.declare v = .ok e) :
      Emits π Γ (.code []) k c ((c.addSlots 1).withEnvironment e)
  /-- A variable is declared with the value of an operand. -/
  | introduce {Γ k c c₁ op v e} {o : Outline}
      (hop : op = .access .frame .store ∨ op = .conditionalBind) (hs : v.slot = c.slotCount)
      (hl : v.slot < Γ.slotBound) (hr : v.readiness = 1) (hf : op = .conditionalBind → v.isFrozen)
      (hπ : op = .access .frame .store → π.stores k v) :
      Emits π Γ (.code o) (k + 2) (c.addSlots 1) c₁ →
      c₁.environment.declare v = .ok e →
      Emits π Γ (.code [.plain op [UInt32.ofNat v.slot] o]) k c (c₁.withEnvironment e)
  /-- A variable is assigned the value of an operand. Which variable counts as the one with the
  value is found out behind the operand. -/
  | assign {Γ k c c₁ x st v span mutated} {o : Outline}
      (hx : c.environment.resolve? x = some (st, v)) (hm : v.mutate span = .ok mutated)
      (hπ : π.stores k v) :
      Emits π Γ (.code o) (k + 2)
        (c.withEnvironment (c.environment.update x fun _ ↦ mutated)) c₁ →
      (∀ st' v', c₁.environment.resolve? x = some (st', v') →
        (⟨st', v'.slot⟩ : Slot) = ⟨st, v.slot⟩ ∨ π.strays k ⟨st', v'.slot⟩) →
      Emits π Γ (.code [.plain (.access st .store) [UInt32.ofNat v.slot] o]) k c
        (c₁.withEnvironment (c₁.environment.update x Variable.settle))
  /-- The instance is referred to, which an initializer may do only behind that of the
  superclass. -/
  | selfReference {Γ k c} (hc : Γ.initializesSuper → c.calledSuper) :
      Emits π Γ (.code [.plain .selfReference [] []]) k c c
  /-- The superclass is initialized. -/
  | superInitializer {Γ k c c₁ words} {o : Outline} (hΓ : Γ.initializesSuper)
      (hc : c.calledSuper = false) (hf : c.flowDepth = 0) :
      Emits π Γ (.code o) (k + 1 + words.length) c c₁ →
      Emits π Γ (.code [.plain .superInitializer words o]) k c { c₁ with calledSuper := true }
  /-- A value is returned, which a frame without a return type may not do. What an initializer
  returns is that it failed. -/
  | returning {Γ k c c₁} {o : Outline}
      (hΓ : Γ.initializer? = none → Γ.result.isNothingness = false) :
      Emits π Γ (.code o) (k + 1) c c₁ →
      Emits π Γ (.code [.plain .returning [] o]) k c
        { c₁ with hasReturned := c₁.hasReturned || Γ.initializer?.isNone }
  /-- A chain of branches. If one of them is taken for certain, the variables that each of them
  reports have a value behind the chain. -/
  | ifChain {Γ k c c₁ c₂ c₃ reports isTotal} {condition body rest : Outline} :
      Emits π Γ (.code condition) (k + 2) c.enterScope c₁ →
      Emits π Γ (.code body) (k + 3 + condition.size) (c₁.enterBlock !Γ.isStatic) c₂ →
      Emits π Γ (.chain rest reports isTotal) (k + 3 + condition.size + body.size)
        (c₂.leaveBlock !Γ.isStatic).leaveScope c₃ →
      Emits π Γ (.code [.ifChain condition body rest]) k c
        (if isTotal then c₃.settleEach (c₂.environment.settledHere (!Γ.isStatic) :: reports)
          else c₃)
  /-- A chain may end without a last branch. -/
  | chainEnd {Γ k c} : Emits π Γ (.chain [] [] false) k c c
  /-- The last branch of a chain has no condition. -/
  | otherwise {Γ k c c₁} {body : Outline} :
      Emits π Γ (.code body) (k + 2) (c.enterScope.enterBlock !Γ.isStatic) c₁ →
      Emits π Γ (.chain [.otherwise body] [c₁.environment.settledHere (!Γ.isStatic)] true) k c
        (c₁.leaveBlock !Γ.isStatic).leaveScope
  /-- A further branch of a chain. -/
  | elseIf {Γ k c c₁ c₂ c₃ reports isTotal} {condition body rest : Outline} :
      Emits π Γ (.code condition) (k + 1) c.enterScope c₁ →
      Emits π Γ (.code body) (k + 2 + condition.size) (c₁.enterBlock !Γ.isStatic) c₂ →
      Emits π Γ (.chain rest reports isTotal) (k + 2 + condition.size + body.size)
        (c₂.leaveBlock !Γ.isStatic).leaveScope c₃ →
      Emits π Γ (.chain [.elseIf condition body rest]
        (c₂.environment.settledHere (!Γ.isStatic) :: reports) isTotal) k c c₃
  /-- A loop with a condition. -/
  | repeatWhile {Γ k c c₁ c₂} {condition body : Outline} :
      Emits π Γ (.code condition) (k + 1) c c₁ →
      Emits π Γ (.code body) (k + 2 + condition.size)
        (c₁.enterScope.enterBlock !Γ.isStatic) c₂ →
      Emits π Γ (.code [.repeatWhile condition body]) k c (c₂.leaveBlock !Γ.isStatic).leaveScope
  /-- A loop over the elements of a value. -/
  | forIn {Γ k c c₁ c₂ v e overList} {iteratee body : Outline} (hs : v.slot = c.slotCount)
      (hl : v.slot + 1 < Γ.slotBound) (hr : v.readiness = 1) (hf : v.isFrozen) :
      Emits π Γ (.code iteratee) (k + 3) (c.enterScope.addSlots 2) c₁ →
      c₁.environment.declare v = .ok e →
      Emits π Γ (.code body) (k + 4 + iteratee.size)
        ((c₁.withEnvironment e).enterBlock !Γ.isStatic) c₂ →
      Emits π Γ (.code [.forIn overList v.slot (v.slot + 1) iteratee body]) k c
        (c₂.leaveBlock !Γ.isStatic).leaveScope
  /-- A closure, whose body has a setting and a frame of its own and shares the fields. -/
  | closure {Γ own k c c₀ c₁ arguments usesSelf captured} {body : Outline}
      (hs : own.isStatic = Γ.isStatic) (hi : own.initializer? = none)
      (hc₀ : c.Distinct → c₀.IsStart (arguments + captured)) (hd : c₀.flowDepth = 0)
      (hb : c₀.calledSuper = false) (hf : c₀.environment.fields = c.environment.fields)
      (hΓ : own.slotBound = Γ.slotBound) (hl : c₀.Below Γ.slotBound)
      (he : c.Distinct → c.HandsOver arguments c₀) (hπ : π.captures k arguments c) :
      Emits π own (.code body) (k + 3) c₀ c₁ →
      Emits π Γ (.code [.closure c₁.slotCount body arguments usesSelf captured]) k c
        (c.withFields c₁.environment.fields)

/-! ## Contexts grow -/

namespace Emits

variable {π : Pins} {Γ : Setting} {part : Part} {k : Nat} {c c' : Context}

/-- **Contexts grow.** -/
theorem grows (h : Emits π Γ part k c c') : c.Grows c' := by
  induction h with
  | nil => exact .refl _
  | append _ _ ih₁ ih₂ => exact ih₁.trans ih₂
  | ordinary _ _ _ ih₁ ih₂ => exact ih₁.trans ih₂
  | load => exact .refl _
  | step hx _ hm => exact .mutate hx hm
  | declare hs _ hr _ hd => exact (Context.Grows.refl _).declareFirst hd hs hr
  | introduce _ hs _ hr _ _ _ hd ih => exact ih.declareFirst hd hs (by omega)
  | assign hx hm _ _ _ ih =>
    exact ((Context.Grows.mutate hx hm).trans ih).trans
      (.withEnvironment (Environment.grows_update fun _ v _ ↦ .settle v))
  | selfReference => exact .refl _
  | superInitializer _ _ _ _ ih =>
    exact ⟨ih.environment, ih.slotCount, ih.flowDepth, fun _ ↦ rfl⟩
  | returning _ _ ih => exact ⟨ih.environment, ih.slotCount, ih.flowDepth, ih.calledSuper⟩
  | @ifChain Γ k c c₁ c₂ c₃ reports isTotal condition body rest _ _ _ ih₁ ih₂ ih₃ =>
    have h := (ih₁.branch ih₂).trans ih₃
    cases isTotal with
    | false => exact h
    | true => exact h.trans (.settleEach _ _)
  | chainEnd => exact .refl _
  | otherwise _ ih => exact ih.block.scope
  | elseIf _ _ _ ih₁ ih₂ ih₃ => exact (ih₁.branch ih₂).trans ih₃
  | repeatWhile _ _ ih₁ ih₂ => exact ih₁.trans ih₂.block.scope
  | forIn hs _ hr _ _ hd _ ih₁ ih₂ =>
    exact (ih₁.declareFirst (c := Context.enterScope _) hd hs (by omega)).branch ih₂
  | closure _ _ _ _ _ hf _ _ _ _ _ ih =>
    have hfields := ih.environment.fields
    rw [hf] at hfields
    exact .withEnvironment ⟨.refl _ _ _, forall₂_scopes_refl _, hfields⟩

/-- In front of the block of a loop its variable is declared, in the first of two slots. -/
theorem grows_loop {c₁ : Context} {o : Outline} {v : Variable} {e : Environment}
    (h : Emits π Γ (.code o) k (c.enterScope.addSlots 2) c₁) (hs : v.slot = c.slotCount)
    (hr : v.readiness = 1) (hd : c₁.environment.declare v = .ok e) :
    c.enterScope.Grows (c₁.withEnvironment e) :=
  h.grows.declareFirst hd hs (by omega)

end Emits

end Pictograph
