import Mathlib.Control.Monad.Writer
import Pictograph.Proofs.Analysis.Composition

/-!
# Analyses that tell their slots

Five constructs take slots of the frame they are in: a declaration, an assignment that introduces
its variable, a variable that keeps its value, a chain of branches for each condition that binds a
value, and a loop over the elements of a value, which takes two. To say which slots these are, the
five are run once more, and a number is told where it is written into the code as that of a new
slot, or where a variable is declared that has no slot in the code yet. Apart from what is told, the
runs are those of the constructs.

What an expression tells are the slots of its own construct. The expressions inside it take slots as
well, but they tell nothing to the one around them.

## Main definitions

* `Telling`: an analysis that tells the slots that it gives away.
* `Telling.muted`: the analysis, without what is told.
* `Telling.expressionStep`: an expression that tells the slots of its own construct.

## Main results

* `Telling.muted_expressionStep`: what is told changes nothing.
-/

namespace Pictograph

/-- Whether a construct takes slots of its frame. -/
def Construct.takes : Construct → Bool
  | declare | assign | declareFrozen | ifBranch | forIn => true
  | _ => false

/-- An analysis that tells the slots that it gives away. -/
abbrev Telling : Type → Type := WriterT (List Nat) Analysis

namespace Telling

open Analysis

variable {α β σ : Type}

/-- The analysis, without what is told. -/
def muted (m : Telling α) : Analysis α := Prod.fst <$> m.run

/-- Repeats a step as often as it takes to get an answer, and no more than so many times. -/
def repeating (step : σ → Telling (σ ⊕ β)) : Nat → σ → Telling β
  | 0, _ => liftM (throw .exhausted : Analysis β)
  | fuel + 1, value => do
    match ← step value with
    | .inl value => repeating step fuel value
    | .inr answer => return answer

/-- Repeats a step until it gives an answer. -/
def repeatUntil (step : σ → Telling (σ ⊕ β)) (value : σ) : Telling β := do
  repeating step ((← Analysis.remaining) + 1) value

/-- Runs an analysis in a scope of its own. -/
def inScope (Γ : Setting) (m : Telling α) : Telling α := do
  enterScope
  let value ← m
  leaveScope Γ
  return value

/-! ## Constructs -/

/-- Writes a slot that is taken. -/
def emitSlot (slot : Nat) : Telling Unit := do
  tell [slot]
  emitNumber slot

/-- Declares a variable in a slot that is taken. -/
def introduce (v : Variable) : Telling Unit := do
  tell [v.slot]
  declare v

/-- A declared variable takes a slot. -/
def declareVariable (Γ : Setting) : Telling Ty := do
  let (x, span) ← variableName
  requireUndeclared x span
  let (type, _) ← annotation Γ Γ.dynamism
  let slot ← newSlot Γ span
  let v : Variable := { name := x, type, slot, span }
  introduce (if type.isOptional then v.ready else v)
  return .nothingness

/-- A variable that is introduced with its value takes a slot. -/
def storeNew (Γ : Setting) (rec : Recursion) (x : String) (span : Span) : Telling Variable := do
  emit (.access .frame .store)
  let slot ← newSlot Γ span
  emitSlot slot
  let type ← operand Γ rec
  return Variable.ready { name := x, type, slot, span }

/-- An assignment takes a slot if it introduces its variable. -/
def assign (Γ : Setting) (rec : Recursion) : Telling Ty := do
  let (x, span) ← variableName
  match ← resolve? x with
  | none => declare (← storeNew Γ rec x span)
  | some (storage, v) =>
    let mutated ← (lift (v.mutate span) : Analysis Variable)
    modifyEnvironment (·.update x fun _ ↦ mutated)
    emitAccess storage .store v.slot
    let _ ← operandFitting Γ rec v.type
    modifyEnvironment (·.update x Variable.settle)
  return .nothingness

/-- A variable that keeps its value takes a slot. -/
def declareFrozen (Γ : Setting) (rec : Recursion) : Telling Ty := do
  let (x, span) ← variableName
  requireUndeclared x span
  declare (← storeNew Γ rec x span).frozen
  return .nothingness

/-- A condition takes a slot if it binds a value. -/
def condition (Γ : Setting) (rec : Recursion) : Telling Unit := do
  if ← accepts .declareFrozen then
    let (x, span) ← variableName
    requireUndeclared x span
    emit .conditionalBind
    let slot ← newSlot Γ span
    emitSlot slot
    let valueSpan ← here
    let t ← operand Γ rec
    require t.isOptional
      (.typeMismatch "condition assignment can only be used with optionals") valueSpan
    declare (Variable.ready { name := x, type := t.unwrapped, slot, span }).frozen
  else
    let _ ← operandFitting Γ rec .boolean

/-- A branch takes the slot of its condition. -/
def branch (Γ : Setting) (rec : Recursion) : Telling (List Slot) :=
  inScope Γ do
    condition Γ rec
    conditionalBlock Γ rec

/-- A chain of branches takes the slots of all conditions. -/
def ifChain (Γ : Setting) (rec : Recursion) : Telling Ty := do
  emit .ifChain
  let count ← reserveCount
  let first ← branch Γ rec
  let conditional ← repeatUntil (fun branches ↦ do
    if ← accepts .elseIfBranch then
      emit .elseIfBranch
      return .inl (branches ++ [← branch Γ rec])
    return .inr branches) [first]
  if ← accepts .elseBranch then
    emit .elseBranch
    let last ← (Analysis.inScope Γ (conditionalBlock Γ rec) : Analysis (List Slot))
    fillCount count
    modifyEnvironment ((inEach (conditional ++ [last])).foldl Environment.settle)
  else
    fillCount count
  return .nothingness

/-- A loop over the elements of a value takes two slots. -/
def forIn (Γ : Setting) (rec : Recursion) (loopSpan : Span) : Telling Ty := do
  let opcode ← reserve
  let (x, span) ← variableName
  let _ ← inScope Γ do
    let slot ← newSlot Γ span
    emitSlot slot
    let hidden ← newSlot Γ span
    emitSlot hidden
    let t ← operandFitting Γ rec .anyObject
    let element ← (demand (elementType? Γ t) (.typeMismatch
      s!"{Γ.typeName t} does not conform to {Vocabulary.enumerableProtocol.text}") loopSpan :
      Analysis Ty)
    fillOpcode opcode (.forIn (t.objectId? == some TypeId.list))
    declare (Variable.ready { name := x, type := element, slot, span }).frozen
    conditionalBlock Γ rec
  return .nothingness

/-- Begins a construct at its first token. -/
def begun (token : Token) (m : Telling α) : Telling α := do
  setLine token.span.line
  modifyFrame ({ · with hasEffect := true })
  m

/-- Analyses an expression, and tells the slots that its construct takes itself. Those that the
expressions inside it take are left out. -/
def expressionStep (rec : Recursion) (Γ : Setting) (token : Token) (hint : Option Ty) :
    Telling Ty :=
  match token.construct? with
  | some .declare => begun token (declareVariable Γ)
  | some .assign => begun token (assign Γ rec)
  | some .declareFrozen => begun token (declareFrozen Γ rec)
  | some .ifBranch => begun token (ifChain Γ rec)
  | some .forIn => begun token (forIn Γ rec token.span)
  | _ => Analysis.expressionStep rec Γ token hint

/-! ## What is told changes nothing -/

theorem run_bind (m : Telling α) (f : α → Telling β) : (m >>= f).run
    = m.run >>= fun x ↦ (fun y ↦ (y.1, x.2 ++ y.2)) <$> (f x.1).run := rfl

/-- What is told in front of a step is told in front of what follows. -/
theorem tell_lift_bind (slots : List Nat) (m : Analysis α) (f : α → Telling β) :
    ((tell slots : Telling PUnit) >>= fun _ ↦ (liftM m : Telling α)) >>= f
      = tell slots >>= fun _ ↦ liftM m >>= f := by
  refine WriterT.ext _ _ ?_
  change ((fun y ↦ (y.1, slots ++ y.2)) <$> (fun a ↦ (a, [])) <$> m) >>= (fun x ↦
      (fun y ↦ (y.1, x.2 ++ y.2)) <$> (f x.1).run)
    = (fun y ↦ (y.1, slots ++ y.2)) <$> ((fun a ↦ (a, [])) <$> m >>= fun x ↦
      (fun y ↦ (y.1, x.2 ++ y.2)) <$> (f x.1).run)
  simp only [bind_map_left, map_bind, List.append_nil, List.nil_append, id_map']

theorem run_bind_ok {m : Telling α} {f : α → Telling β} {s s' : State}
    {b : β} {slots : List Nat} (h : (m >>= f).run s = .ok (b, slots) s') :
    ∃ a first s₁ rest, m.run s = .ok (a, first) s₁ ∧ (f a).run s₁ = .ok (b, rest) s'
      ∧ slots = first ++ rest := by
  rw [run_bind] at h
  obtain ⟨⟨a, first⟩, s₁, hm, h⟩ := bind_ok h
  obtain ⟨⟨b', rest⟩, hf, heq⟩ := map_ok h
  cases heq
  exact ⟨a, first, s₁, rest, hm, hf, rfl⟩

theorem run_lift_of_ok {m : Analysis α} {s s' : State} {a : α} (h : m s = .ok a s') :
    (liftM m : Telling α).run s = .ok (a, []) s' := by
  change EStateM.map (fun a ↦ (a, [])) m s = _
  rw [EStateM.map, h]

@[simp] theorem muted_pure (a : α) : muted (pure a) = pure a := rfl

@[simp] theorem muted_lift (m : Analysis α) : muted (liftM m) = m := by
  change Prod.fst <$> (fun a ↦ (a, [])) <$> m = m
  rw [← comp_map]
  exact id_map m

@[simp] theorem muted_tell (slots : List Nat) : muted (tell slots) = pure PUnit.unit := rfl

@[simp] theorem muted_bind (m : Telling α) (f : α → Telling β) :
    muted (m >>= f) = muted m >>= fun a ↦ muted (f a) := by
  simp only [muted, run_bind, map_bind, bind_map_left, ← comp_map]
  rfl

@[simp] theorem muted_ite {c : Prop} [Decidable c] (m m' : Telling α) :
    muted (if c then m else m') = if c then muted m else muted m' := by
  split <;> rfl

theorem muted_repeating (step : σ → Telling (σ ⊕ β)) (fuel : Nat) (value : σ) :
    muted (repeating step fuel value)
      = Analysis.repeating (fun value ↦ muted (step value)) fuel value := by
  induction fuel generalizing value with
  | zero => exact muted_lift _
  | succ fuel ih =>
    rw [repeating, muted_bind, Analysis.repeating]
    congr 1
    funext answer
    cases answer with
    | inl value => exact ih value
    | inr answer => rfl

theorem muted_repeatUntil (step : σ → Telling (σ ⊕ β)) (value : σ) :
    muted (repeatUntil step value)
      = Analysis.repeatUntil (fun value ↦ muted (step value)) value := by
  rw [repeatUntil, muted_bind, muted_lift]
  simp only [muted_repeating]
  rfl

theorem muted_inScope (Γ : Setting) (m : Telling α) :
    muted (inScope Γ m) = Analysis.inScope Γ (muted m) := by
  simp only [inScope, Composed.inScope_eq, muted_bind, muted_lift, muted_pure]

@[simp] theorem muted_emitSlot (slot : Nat) : muted (emitSlot slot) = emitNumber slot := by
  rw [emitSlot, muted_bind, muted_tell, muted_lift, pure_bind]

@[simp] theorem muted_introduce (v : Variable) : muted (introduce v) = declare v := by
  rw [introduce, muted_bind, muted_tell, muted_lift, pure_bind]

variable (Γ : Setting) (rec : Recursion)

theorem muted_declareVariable : muted (declareVariable Γ) = Analysis.declareVariable Γ := by
  simp only [declareVariable, Analysis.declareVariable, muted_bind, muted_lift, muted_pure,
    muted_introduce]

theorem muted_storeNew (x : String) (span : Span) :
    muted (storeNew Γ rec x span) = Analysis.storeNew Γ rec x span := by
  simp only [storeNew, Analysis.storeNew, muted_bind, muted_lift, muted_pure, muted_emitSlot]

theorem muted_assign : muted (assign Γ rec) = Analysis.assign Γ rec := by
  unfold assign Analysis.assign
  rw [muted_bind, muted_lift]
  congr 1
  funext x
  dsimp only
  rw [muted_bind, muted_lift]
  congr 1
  funext found?
  cases found? with
  | none => simp only [muted_bind, muted_lift, muted_pure, muted_storeNew]
  | some found => simp only [muted_bind, muted_lift, muted_pure]

theorem muted_declareFrozen : muted (declareFrozen Γ rec) = Analysis.declareFrozen Γ rec := by
  simp only [declareFrozen, Analysis.declareFrozen, muted_bind, muted_lift, muted_pure,
    muted_storeNew]

theorem muted_condition : muted (condition Γ rec) = Analysis.condition Γ rec := by
  simp only [condition, Analysis.condition, muted_bind, muted_lift, muted_pure, muted_ite,
    muted_emitSlot]

theorem muted_branch : muted (branch Γ rec) = Analysis.branch Γ rec := by
  simp only [branch, Analysis.branch, muted_inScope, muted_bind, muted_condition, muted_lift]

theorem muted_ifChain : muted (ifChain Γ rec) = Analysis.ifChain Γ rec := by
  simp only [ifChain, Analysis.ifChain, muted_bind, muted_lift, muted_pure, muted_ite,
    muted_branch, muted_repeatUntil]

theorem muted_forIn (span : Span) : muted (forIn Γ rec span) = Analysis.forIn Γ rec span := by
  simp only [forIn, Analysis.forIn, muted_inScope, muted_bind, muted_lift, muted_pure,
    muted_emitSlot]

theorem muted_begun {token : Token} {asked : Construct} {m : Telling Ty} {hint : Option Ty}
    (h : token.construct? = some asked) (hasked : asked ≠ .returning)
    (hm : muted m = Analysis.construct Γ rec token asked.spelling hint) :
    muted (begun token m) = Analysis.expressionStep rec Γ token hint := by
  rw [expressionStep_of_asksFor (beq_iff_eq.mpr h) hasked, begun]
  simp only [muted_bind, muted_lift, hm]

/-- **What is told changes nothing.** -/
theorem muted_expressionStep (token : Token) (hint : Option Ty) :
    muted (expressionStep rec Γ token hint) = Analysis.expressionStep rec Γ token hint := by
  unfold expressionStep
  split
  · next h => exact muted_begun Γ rec h nofun (muted_declareVariable Γ)
  · next h => exact muted_begun Γ rec h nofun (muted_assign Γ rec)
  · next h => exact muted_begun Γ rec h nofun (muted_declareFrozen Γ rec)
  · next h => exact muted_begun Γ rec h nofun (muted_ifChain Γ rec)
  · next h => exact muted_begun Γ rec h nofun (muted_forIn Γ rec _)
  · exact muted_lift _

end Telling

end Pictograph
