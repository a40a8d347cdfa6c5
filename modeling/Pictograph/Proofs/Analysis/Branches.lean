import Pictograph.Analysis.Flow
import Pictograph.Proofs.Analysis.Variables

/-!
# Branches and loops

A block that may be skipped is emitted behind its word count, a branch as a condition and a block in
a scope of its own. A chain is written from its first branch to its last one, while the outline of
a chain holds the rest of the chain in each branch; so what the further branches emit is described
for every way to go on behind them.

## Main results

* `Analysis.wrote_ifChain`, `Analysis.wrote_repeatWhile` and `Analysis.wrote_forIn`: the constructs
  with blocks emit by the rules.
-/

namespace Pictograph

/-- A step emits a block that may be skipped, behind the number of its words. The context `c` is
that at the end of the block. -/
structure WritesBlock (π : Notes) (Γ : Setting) (body : Outline) (c : Context)
    (settled : List Slot) (s s' : State) : Prop where
  emits : Emits π.toPins Γ (.code body) (s.offset + 1) (s.context.enterBlock !Γ.isStatic) c
  expressions : Outline.Expressions π body (s.offset + 1)
  listing : s'.listing = s.listing ++ immediateNumber body.size :: Outline.entries body
  holes : s'.holes = s.holes
  context : s'.context = c.leaveBlock !Γ.isStatic
  settled : settled = c.environment.settledHere !Γ.isStatic
  effect : s'.frame.hasEffect

/-- An outline that starts at an offset is a condition. -/
structure Outline.Condition (π : Notes) (o : Outline) (k : Nat) : Prop where
  decides : Outline.Decides π.toPlaces o k
  laid : Outline.Laid π.gap π.callee o k
  returnsProperly : Outline.ReturnsProperly π.returns o k
  fills : Outline.Fills π.gap 1 o k
  withoutReturn : Outline.WithoutReturn o

/-- A step emits a condition and its block. The context `c₁` is that behind the condition, and `c₂`
is that at the end of the block. -/
structure WritesBranch (π : Notes) (Γ : Setting) (condition : Outline) (c₁ : Context)
    (body : Outline) (c₂ : Context) (settled : List Slot) (s s' : State) : Prop where
  emitsCondition : Emits π.toPins Γ (.code condition) s.offset s.context.enterScope c₁
  emitsBody : Emits π.toPins Γ (.code body) (s.offset + condition.size + 1)
    (c₁.enterBlock !Γ.isStatic) c₂
  isCondition : Outline.Condition π condition s.offset
  expressions : Outline.Expressions π body (s.offset + condition.size + 1)
  listing : s'.listing = s.listing
    ++ (Outline.entries condition ++ immediateNumber body.size :: Outline.entries body)
  holes : s'.holes = s.holes
  context : s'.context = (c₂.leaveBlock !Γ.isStatic).leaveScope
  settled : settled = c₂.environment.settledHere !Γ.isStatic
  effect : s'.frame.hasEffect

/-- A step emits the rest of a chain. -/
structure WritesRest (π : Notes) (Γ : Setting) (rest : Outline) (reports : List (List Slot))
    (isTotal : Bool) (c : Context) (s s' : State) : Prop where
  emits : Emits π.toPins Γ (.chain rest reports isTotal) s.offset s.context c
  continues : Outline.Continues π.toPlaces rest s.offset
  laid : Outline.Laid π.gap π.callee rest s.offset
  returnsProperly : Outline.ReturnsProperly π.returns rest s.offset
  withoutReturn : Outline.WithoutReturn rest
  listing : s'.listing = s.listing ++ Outline.entries rest
  holes : s'.holes = s.holes
  effect : s.frame.hasEffect → s'.frame.hasEffect

/-- A step emits further branches of a chain. Whatever the chain goes on with, it starts with these
branches. -/
def WritesFurther (π : Notes) (Γ : Setting) (reports : List (List Slot)) (s s' : State) : Prop :=
  ∀ {rest reports' isTotal c s''}, WritesRest π Γ rest reports' isTotal c s' s'' →
    ∃ rest', WritesRest π Γ rest' (reports ++ reports') isTotal c s s''

section

variable {π : Notes} {Γ : Setting} {s s₁ s₂ s' : State} {condition body : Outline}
  {c₁ c₂ : Context} {settled : List Slot}

theorem WritesBranch.offset (h : WritesBranch π Γ condition c₁ body c₂ settled s s') :
    s'.offset = s.offset + condition.size + 1 + body.size := by
  rw [State.offset_of_listing h.listing, List.length_append, List.length_cons,
    Outline.length_entries, Outline.length_entries]
  omega

/-- No further branch. -/
theorem WritesFurther.nil (hk : Keeps s s') : WritesFurther π Γ [] s s' := by
  intro rest reports' isTotal c s'' hrest
  have er := hrest.emits
  have kr := hrest.continues
  have lr := hrest.laid
  have pr := hrest.returnsProperly
  rw [hk.offset] at er kr lr pr
  rw [hk.context] at er
  refine ⟨rest, er, kr, lr, pr, hrest.withoutReturn, ?_, hrest.holes.trans hk.holes,
    hrest.effect ∘ hk.effect⟩
  rw [hrest.listing, hk.listing, List.append_nil]

/-- A further branch stands in front of all that the chain goes on with. -/
theorem WritesFurther.elseIf {reports : List (List Slot)}
    (h₁ : Adds [Opcode.elseIfBranch.entry] s s₁)
    (h₂ : WritesBranch π Γ condition c₁ body c₂ settled s₁ s₂)
    (h : WritesFurther π Γ reports s₂ s') : WritesFurther π Γ (settled :: reports) s s' := by
  intro rest reports' isTotal c s'' hrest
  obtain ⟨rest', hrest⟩ := h hrest
  have ho₁ : s₁.offset = s.offset + 1 := h₁.offset
  have ho₂ := h₂.offset
  have ec := h₂.emitsCondition
  have pc := h₂.isCondition
  have eb := h₂.emitsBody
  have xb := h₂.expressions
  have er := hrest.emits
  have kr := hrest.continues
  have lr := hrest.laid
  have pr := hrest.returnsProperly
  rw [h₂.context] at er
  -- offsets are counted from the start of the branch, as in the rule
  have eo : s₁.offset + condition.size + 1 = s.offset + 2 + condition.size := by omega
  have eo' : s₂.offset = s.offset + 2 + condition.size + body.size := by omega
  rw [ho₁] at ec pc
  rw [h₁.context] at ec
  rw [eo] at eb xb
  rw [eo'] at er kr lr pr
  refine ⟨[.elseIf condition body rest'], ?_, ⟨pc.decides, xb.follows, kr⟩,
    Outline.laid_singleton.mpr ⟨pc.fills, pc.laid, xb.laid, lr⟩,
    Outline.returnsProperly_singleton.mpr ⟨pc.withoutReturn, hrest.withoutReturn,
      pc.returnsProperly, xb.returnsProperly, pr⟩, .single rfl, ?_,
    hrest.holes.trans (h₂.holes.trans h₁.holes), fun _ ↦ hrest.effect h₂.effect⟩
  · rw [h₂.settled]
    exact .elseIf ec eb er
  · rw [hrest.listing, h₂.listing, h₁.listing, Outline.entries_singleton]
    simp only [List.nil_append, List.append_assoc, List.cons_append, Item.entries,
      Outline.length_entries]

/-- A chain is emitted from its first branch and its rest. -/
theorem wrote_chain {hole : CountHole} {u : Unit} {s₃ s₄ s₅ : State} {rest : Outline}
    {reports : List (List Slot)} {isTotal : Bool} {c : Context} (hs : π.spans s.offset s'.offset)
    (h₁ : Adds [Opcode.ifChain.entry] s s₁) (h₂ : Analysis.reserveCount s₁ = .ok hole s₂)
    (h₃ : WritesBranch π Γ condition c₁ body c₂ settled s₂ s₃)
    (h₄ : WritesRest π Γ rest reports isTotal c s₃ s₄)
    (h₅ : Analysis.fillCount hole s₄ = .ok u s₅) (hl : s'.listing = s₅.listing)
    (hh : s'.holes = s₅.holes)
    (he : s₅.frame.hasEffect → s'.frame.hasEffect)
    (hc : s₅.context = s₄.context →
      s'.context = if isTotal then c.settleEach (settled :: reports) else c) :
    Wrote π Γ 1 s s' := by
  obtain ⟨hi, hhole, hc₂, -⟩ := Analysis.inside_reserveCount h₂
  have hf := Analysis.filled_fillCount
    ((hi.adds h₃.listing h₃.holes).adds h₄.listing h₄.holes) hhole h₅
  have ho₂ : s₂.offset = s.offset + 2 := by
    have ho₁ := h₁.offset
    have ho₂ := hi.offset
    simp only [List.length_singleton, List.length_nil] at ho₁ ho₂
    omega
  -- offsets are counted from the start of the chain, as in the rule
  have ho₃ := h₃.offset
  have ec := h₃.emitsCondition
  have pc := h₃.isCondition
  have eb := h₃.emitsBody
  have xb := h₃.expressions
  have er := h₄.emits
  have kr := h₄.continues
  have lr := h₄.laid
  have pr := h₄.returnsProperly
  rw [h₃.context] at er
  have eo : s₂.offset + condition.size + 1 = s.offset + 3 + condition.size := by omega
  have eo' : s₃.offset = s.offset + 3 + condition.size + body.size := by omega
  rw [ho₂] at ec pc
  rw [hc₂, h₁.context] at ec
  rw [eo] at eb xb
  rw [eo'] at er kr lr pr
  have hw : Written π.toPins Γ [.ifChain condition body rest] s s' := by
    refine ⟨?_, ?_, hh.trans (hf.holes.trans h₁.holes)⟩
    · rw [hc hf.context, h₃.settled]
      exact .ifChain ec eb er
    -- the word count behind the opcode is that of all branches
    · have en : (([] ++ (Outline.entries condition
            ++ immediateNumber body.size :: Outline.entries body)) ++ Outline.entries rest).length
          = condition.size + 1 + body.size + rest.size := by
        simp only [List.nil_append, List.length_append, List.length_cons, Outline.length_entries]
        omega
      rw [hl, hf.listing, h₁.listing, en, Outline.entries_singleton]
      simp only [List.nil_append, List.append_assoc, List.cons_append, Item.entries,
        Outline.length_entries]
  exact .single hs hw (fun hs ↦ ⟨hs, pc.decides, xb.follows, kr⟩)
    ⟨pc.fills, pc.laid, xb.laid, lr⟩
    ⟨pc.withoutReturn, h₄.withoutReturn, pc.returnsProperly, xb.returnsProperly, pr⟩
    fun _ ↦ ⟨rfl, he (hf.effect (h₄.effect h₃.effect))⟩

/-- A loop over the elements of a value is emitted from the slots, the value and the block. -/
theorem wrote_loop {hole : Hole} {slot : Nat} {overList : Bool} {v : Variable} {iteratee : Outline}
    {u : Unit} {c : Context} {s₃ s₄ s₅ : State} (hs : π.spans s.offset s'.offset)
    (h₁ : Analysis.Inside [immediateNumber slot, immediateNumber (slot + 1)] s s₁)
    (hhole : hole.offset = s.offset) (hc₁ : s₁.context = s.context.enterScope.addSlots 2)
    (h₂ : WritesOperands π Γ 1 iteratee s₁ s₂)
    (h₃ : Analysis.fillOpcode hole (.forIn overList) s₂ = .ok u s₃)
    (h₄ : Analysis.declare v s₃ = .ok u s₄) (hslot : slot = s.context.slotCount)
    (hbound : slot + 1 < Γ.slotBound) (hv : v.slot = slot) (hr : v.readiness = 1)
    (hfrozen : v.isFrozen)
    (h₅ : WritesBlock π Γ body c settled s₄ s₅)
    (hl : s'.listing = s₅.listing) (hh : s'.holes = s₅.holes)
    (hc : s'.context = s₅.context.leaveScope)
    (heffect : s₅.frame.hasEffect → s'.frame.hasEffect) : Wrote π Γ 1 s s' := by
  subst hv
  have hi := h₁.adds h₂.listing h₂.holes
  have hf := Analysis.filled_fillOpcode hi hhole h₃
  obtain ⟨e, he, rfl⟩ := Analysis.declare_ok h₄
  -- the variable of the loop is declared in the scope that the value leaves behind
  have henv : s₃.environment = s₂.context.environment := congrArg Context.environment hf.context
  rw [henv] at he
  have ho₁ : s₁.offset = s.offset + 3 := h₁.offset
  have ho₃ : s₃.offset + 1 = s.offset + 4 + iteratee.size := by
    have ho : s₂.offset = s₁.offset + iteratee.size := h₂.offset
    have hl₃ : s₃.offset = s₂.offset := by
      rw [State.offset_of_listing hf.listing, hi.offset, List.length_cons]
      omega
    omega
  have ei := h₂.emits
  have pi := h₂.operands
  have eb : Emits π.toPins Γ (.code body) (s₃.offset + 1)
    ((s₃.context.withEnvironment e).enterBlock !Γ.isStatic) c := h₅.emits
  have xb : Outline.Expressions π body (s₃.offset + 1) := h₅.expressions
  rw [ho₁] at ei pi
  rw [hc₁] at ei
  rw [ho₃] at eb xb
  rw [hf.context] at eb
  have hw : Written π.toPins Γ [.forIn overList v.slot (v.slot + 1) iteratee body] s s' := by
    refine ⟨?_, ?_, hh.trans (h₅.holes.trans hf.holes)⟩
    · rw [hc, h₅.context]
      exact .forIn hslot hbound hr hfrozen ei he eb
    · rw [hl, h₅.listing]
      change s₃.listing ++ _ = _
      rw [hf.listing, List.append_assoc, Outline.entries_singleton]
      rfl
  have hcount : v.slot + 1 < Slot.count := Nat.lt_of_lt_of_le hbound (Nat.min_le_right _ _)
  exact .single hs hw
    (fun hs ↦ ⟨Nat.lt_of_succ_lt hcount, hcount, hs, pi.follows, xb.follows⟩)
    ⟨pi.fills, pi.laid, xb.laid⟩
    ⟨pi.withoutReturn, pi.returnsProperly, xb.returnsProperly⟩ fun _ ↦ ⟨rfl, heffect h₅.effect⟩

end

namespace Analysis

variable {π : Notes} {Γ : Setting} {rec : Recursion} {s s' : State} {t : Ty}
  {u : Unit}

/-! ## Blocks and scopes -/

theorem enterConditional_ok {withFields : Bool} (h : enterConditional withFields s = .ok u s') :
    s' = { s with environment := s.environment.enterConditional withFields } := by
  obtain ⟨_, s₁, h₁, h⟩ := bind_ok h
  cases h₁
  dsimp only at h
  split at h
  · obtain ⟨_, s₂, h₂, h⟩ := bind_ok h
    cases h₂
  · cases h
    rfl

theorem writes_conditionalBlock {settled : List Slot}
    (h : Emitting π rec (fun r ↦ conditionalBlock Γ r) s settled s') :
    ∃ body c, WritesBlock π Γ body c settled s s' := by
  obtain ⟨_, s₁, h₁, h⟩ := h.bind
  obtain rfl := enterConditional_ok h₁.const
  obtain ⟨_, s₂, h₂, h⟩ := h.bind
  cases h₂.const
  obtain ⟨_, s₃, h₃, h⟩ := h.bind
  obtain ⟨hole, s₄, h₄, h⟩ := h.bind
  obtain ⟨_, s₅, h₅, h⟩ := h.bind
  obtain ⟨_, s₆, h₆, h⟩ := h.bind
  obtain ⟨_, s₇, h₇, h⟩ := h.bind
  cases h₇.const
  obtain ⟨_, s₈, h₈, h⟩ := h.bind
  cases h₈.const
  obtain ⟨_, s₉, h₉, h⟩ := h.bind
  cases h₉.const
  obtain ⟨rfl, rfl⟩ := pure_ok h.const
  -- only the word count and the statements write anything
  obtain ⟨body, hbody⟩ := wrote_statements h₅
  have hk := keeps_reading h₃.const
  obtain ⟨hi, hhole, hc, -⟩ := inside_reserveCount h₄.const
  have hf := filled_fillCount (hi.adds hbody.listing hbody.holes) hhole h₆.const
  have ho : s₄.offset = s.offset + 1 := by
    rw [hi.offset, hk.offset]
    rfl
  have he := hbody.emits
  have hx := hbody.expressions
  rw [ho] at he hx
  rw [hc, hk.context, ← hf.context] at he
  refine ⟨body, s₆.context, he, hx, ?_, hf.holes.trans hk.holes, rfl, rfl, rfl⟩
  change s₆.listing = _
  rw [hf.listing, hk.listing, List.append_nil]
  rfl

theorem keeps_recommendFrozen {candidates : List Variable}
    (h : recommendFrozen Γ candidates s = .ok u s') : Keeps s s' := by
  unfold recommendFrozen at h
  split at h
  · induction candidates generalizing s with
    | nil =>
      obtain ⟨-, rfl⟩ := pure_ok h
      exact .refl _
    | cons v candidates ih =>
      obtain ⟨_, s₁, h₁, h⟩ := bind_ok h
      exact (keeps_warn h₁).trans (ih h)
  · obtain ⟨-, rfl⟩ := pure_ok h
    exact .refl _

/-- An analysis that runs in a scope of its own. -/
theorem inScope_ok {α : Type} {m : Recursion → Analysis α} {a : α}
    (h : Emitting π rec (fun r ↦ inScope Γ (m r)) s a s') :
    ∃ s₁, Emitting π rec m { s with environment := s.environment.push .empty } a s₁
      ∧ s'.listing = s₁.listing ∧ s'.holes = s₁.holes ∧ s'.context = s₁.context.leaveScope
      ∧ (s₁.frame.hasEffect → s'.frame.hasEffect) := by
  obtain ⟨_, s₁, h₁, h⟩ := h.bind
  cases h₁.const
  obtain ⟨a', s₂, h₂, h⟩ := h.bind
  obtain ⟨_, s₃, h₃, h⟩ := h.bind
  cases h₃.const
  replace h := h.const
  -- without a scope to leave, the environment stays as it is
  generalize hpop : s₂.environment.pop? = popped? at h
  cases popped? with
  | some popped =>
    obtain ⟨left, environment⟩ := popped
    obtain ⟨_, s₄, h₄, h⟩ := bind_ok h
    cases h₄
    obtain ⟨_, s₅, h₅, h⟩ := bind_ok h
    obtain ⟨rfl, rfl⟩ := pure_ok h
    have hk := keeps_recommendFrozen h₅
    refine ⟨s₂, h₂, hk.listing.trans (List.append_nil _), hk.holes, hk.context.trans ?_,
      hk.effect⟩
    exact congrArg s₂.context.withEnvironment (Environment.leave_of_some hpop).symm
  | none =>
    obtain ⟨rfl, rfl⟩ := pure_ok h
    refine ⟨s₂, h₂, rfl, rfl, ?_, id⟩
    exact congrArg s₂.context.withEnvironment (Environment.leave_of_none hpop).symm

/-! ## Branches -/

theorem written_condition (h : Emitting π rec (fun r ↦ condition Γ r) s u s')
    (he : s.frame.hasEffect) :
    ∃ o, Written π.toPins Γ o s s' ∧ Outline.Condition π o s.offset := by
  obtain ⟨binds, s₁, h₁, h⟩ := h.bind
  have hk := keeps_accepts h₁.const
  rcases h.ite with ⟨-, h⟩ | ⟨-, h⟩
  · obtain ⟨⟨x, span⟩, s₂, h₂, h⟩ := h.bind
    obtain ⟨_, s₃, h₃, h⟩ := h.bind
    obtain rfl := requireUndeclared_ok h₃.const
    obtain ⟨_, s₄, h₄, h⟩ := h.bind
    obtain ⟨slot, s₅, h₅, h⟩ := h.bind
    obtain ⟨_, s₆, h₆, h⟩ := h.bind
    obtain ⟨valueSpan, s₇, h₇, h⟩ := h.bind
    obtain ⟨t, s₈, h₈, h⟩ := h.bind
    obtain ⟨_, s₉, h₉, h⟩ := h.bind
    obtain ⟨-, rfl⟩ := require_ok h₉.const
    -- a condition that binds a variable introduces it with the value of its operand
    have hvalue := (wrote_operand h₈).behind (keeps_here h₇.const)
    have hk' := hk.trans (keeps_variableName h₂.const)
    obtain ⟨o, ⟨hw, hp⟩, -⟩ := written_introduce .conditionalBind (.inr rfl) (hk'.effect he)
      h₄.const h₅.const h₆.const hvalue h.const rfl rfl (fun _ ↦ rfl) fun hop ↦ nomatch hop
    rw [hk'.offset] at hp
    exact ⟨_, .of_keeps hk' hw, hp.follows,
      Outline.laid_singleton.mpr (Item.laid_instruction rfl rfl .nil hp),
      Outline.returnsProperly_singleton.mpr (Item.returnsProperly_instruction .nil hp), .single _,
      .single rfl⟩
  · obtain ⟨_, s₂, h₂, h⟩ := h.bind
    obtain ⟨-, rfl⟩ := pure_ok h.const
    obtain ⟨o, ho⟩ := (wrote_operandFitting h₂).operands (hk.effect he)
    have hp := ho.operands
    rw [hk.offset] at hp
    exact ⟨o, .of_keeps hk ho.toWritten, hp.follows.decides, hp.laid, hp.returnsProperly, hp.fills,
      hp.withoutReturn⟩

theorem writes_branch {settled : List Slot} (he : s.frame.hasEffect)
    (h : Emitting π rec (fun r ↦ branch Γ r) s settled s') :
    ∃ condition c₁ body c₂, WritesBranch π Γ condition c₁ body c₂ settled s s' := by
  obtain ⟨s₁, h, hl, hh, hc, heffect⟩ := inScope_ok h
  obtain ⟨_, s₂, h₁, h⟩ := h.bind
  obtain ⟨condition, hcond, pc⟩ := written_condition h₁ he
  obtain ⟨body, c₂, hbody⟩ := writes_conditionalBlock h
  have ho : s₂.offset = s.offset + condition.size := hcond.offset
  have eb := hbody.emits
  have xb := hbody.expressions
  rw [ho] at eb xb
  refine ⟨condition, _, body, c₂, hcond.emits, eb, pc, xb, ?_,
    hh.trans (hbody.holes.trans hcond.holes), ?_, hbody.settled, heffect hbody.effect⟩
  · rw [hl, hbody.listing, hcond.listing, List.append_assoc]
    rfl
  · rw [hc, hbody.context]

theorem writes_otherwise {settled : List Slot} {s₁ : State}
    (h₁ : Adds [Opcode.elseBranch.entry] s s₁)
    (h : Emitting π rec (fun r ↦ inScope Γ (conditionalBlock Γ r)) s₁ settled s') :
    ∃ body, WritesRest π Γ [.otherwise body] [settled] true s'.context s s' := by
  obtain ⟨s₂, h, hl, hh, hc, heffect⟩ := inScope_ok h
  obtain ⟨body, c, hbody⟩ := writes_conditionalBlock h
  have ho : s₁.offset + 1 = s.offset + 2 := congrArg (· + 1) h₁.offset
  have eb : Emits π.toPins Γ (.code body) (s₁.offset + 1)
    (s₁.context.enterScope.enterBlock !Γ.isStatic) c := hbody.emits
  have xb : Outline.Expressions π body (s₁.offset + 1) := hbody.expressions
  rw [ho] at eb xb
  rw [h₁.context] at eb
  refine ⟨body, ?_, xb.follows, Outline.laid_singleton.mpr xb.laid,
    Outline.returnsProperly_singleton.mpr xb.returnsProperly, .single rfl, ?_,
    hh.trans (hbody.holes.trans h₁.holes), fun _ ↦ heffect hbody.effect⟩
  · rw [hc, hbody.context, hbody.settled]
    exact .otherwise eb
  · rw [hl, hbody.listing]
    change s₁.listing ++ _ = _
    rw [h₁.listing, List.append_assoc, Outline.entries_singleton]
    rfl

/-- The further branches of a chain. -/
theorem writesFurther_branches {reports result : List (List Slot)} (he : s.frame.hasEffect)
    (h : Emitting π rec (fun r ↦ repeatUntil (fun branches ↦ do
      if ← accepts .elseIfBranch then
        emit .elseIfBranch
        return .inl (branches ++ [← branch Γ r])
      return .inr branches) reports) s result s') :
    ∃ further, result = reports ++ further ∧ WritesFurther π Γ further s s' := by
  refine h.repeatUntil (Q := fun reports s result s' ↦ s.frame.hasEffect →
    ∃ further, result = reports ++ further ∧ WritesFurther π Γ further s s') ?_ ?_ he
  · intro reports s result s' h _
    obtain ⟨more, s₁, h₁, h⟩ := h.bind
    rcases h.ite with ⟨-, h⟩ | ⟨-, h⟩
    · obtain ⟨_, s₂, h₂, h⟩ := h.bind
      obtain ⟨_, s₃, h₃, h⟩ := h.bind
      cases h.const
    · cases h.const
      exact ⟨[], (List.append_nil _).symm, WritesFurther.nil (keeps_accepts h₁.const)⟩
  · intro reports s reports' s₁ result s' h ih he
    obtain ⟨more, s₂, h₂, h⟩ := h.bind
    rcases h.ite with ⟨-, h⟩ | ⟨-, h⟩
    · obtain ⟨_, s₃, h₃, h⟩ := h.bind
      obtain ⟨settled, s₄, h₄, h⟩ := h.bind
      cases h.const
      have hhead := (keeps_accepts h₂.const).trans (adds_emit h₃.const)
      obtain ⟨condition, c₁, body, c₂, hbranch⟩ := writes_branch (hhead.effect he) h₄
      obtain ⟨further, rfl, hfurther⟩ := ih hbranch.effect
      exact ⟨settled :: further, List.append_assoc ..,
        WritesFurther.elseIf hhead hbranch hfurther⟩
    · cases h.const

/-- If the last branch of a chain has no condition, what all branches give a value to has a value
behind the chain. -/
theorem wrote_ifChain (hs : π.spans s.offset s'.offset) (he : s.frame.hasEffect)
    (h : Emitting π rec (fun r ↦ ifChain Γ r) s t s') : Wrote π Γ 1 s s' := by
  obtain ⟨_, s₁, h₁, h⟩ := h.bind
  obtain ⟨hole, s₂, h₂, h⟩ := h.bind
  obtain ⟨first, s₃, h₃, h⟩ := h.bind
  obtain ⟨conditional, s₄, h₄, h⟩ := h.bind
  obtain ⟨hasLast, s₅, h₅, h⟩ := h.bind
  have hk := keeps_accepts h₅.const
  have hemit := adds_emit h₁.const
  obtain ⟨-, -, -, he₂⟩ := inside_reserveCount h₂.const
  obtain ⟨condition, c₁, body, c₂, hbranch⟩ := writes_branch (he₂ (hemit.effect he)) h₃
  obtain ⟨further, rfl, hfurther⟩ := writesFurther_branches hbranch.effect h₄
  rcases h.ite with ⟨-, h⟩ | ⟨-, h⟩
  · obtain ⟨_, s₆, h₆, h⟩ := h.bind
    obtain ⟨last, s₇, h₇, h⟩ := h.bind
    obtain ⟨_, s₈, h₈, h⟩ := h.bind
    obtain ⟨_, s₉, h₉, h⟩ := h.bind
    cases h₉.const
    obtain ⟨-, rfl⟩ := pure_ok h.const
    -- a last branch without condition makes the chain total
    obtain ⟨last', hlast⟩ := writes_otherwise (hk.trans (adds_emit h₆.const)) h₇
    obtain ⟨rest, hrest⟩ := hfurther hlast
    refine wrote_chain hs hemit h₂.const hbranch hrest h₈.const rfl rfl id fun hc ↦ ?_
    rw [if_pos rfl, ← hc]
    rfl
  · obtain ⟨_, s₆, h₆, h⟩ := h.bind
    obtain ⟨-, rfl⟩ := pure_ok h.const
    -- all branches may be skipped, so nothing is settled behind the chain
    have hend : WritesRest π Γ [] [] false s₄.context s₄ s₅ :=
      ⟨.chainEnd, trivial, trivial, trivial, .nil, hk.listing, hk.holes, hk.effect⟩
    obtain ⟨rest, hrest⟩ := hfurther hend
    refine wrote_chain hs hemit h₂.const hbranch hrest h₆.const rfl rfl id fun hc ↦ ?_
    rw [if_neg Bool.false_ne_true, hc, hk.context]

/-! ## Loops -/

theorem wrote_repeatWhile (hs : π.spans s.offset s'.offset) (he : s.frame.hasEffect)
    (h : Emitting π rec (fun r ↦ repeatWhile Γ r) s t s') : Wrote π Γ 1 s s' := by
  obtain ⟨_, s₁, h₁, h⟩ := h.bind
  obtain ⟨_, s₂, h₂, h⟩ := h.bind
  obtain ⟨settled, s₃, h₃, h⟩ := h.bind
  obtain ⟨-, rfl⟩ := pure_ok h.const
  have hemit := adds_emit h₁.const
  obtain ⟨condition, hcond⟩ := (wrote_operandFitting h₂).operands (hemit.effect he)
  obtain ⟨s₄, h₄, hl, hh, hc, heffect⟩ := inScope_ok h₃
  obtain ⟨body, c, hbody⟩ := writes_conditionalBlock h₄
  have ho₁ : s₁.offset = s.offset + 1 := hemit.offset
  have ho₂ : s₂.offset + 1 = s.offset + 2 + condition.size := by
    have ho := hcond.offset
    omega
  have ec := hcond.emits
  have pc := hcond.operands
  have eb : Emits π.toPins Γ (.code body) (s₂.offset + 1)
    (s₂.context.enterScope.enterBlock !Γ.isStatic) c := hbody.emits
  have xb : Outline.Expressions π body (s₂.offset + 1) := hbody.expressions
  rw [ho₁] at ec pc
  rw [hemit.context] at ec
  rw [ho₂] at eb xb
  have hw : Written π.toPins Γ [.repeatWhile condition body] s s₃ := by
    refine ⟨?_, ?_, hh.trans (hbody.holes.trans (hcond.holes.trans hemit.holes))⟩
    · rw [hc, hbody.context]
      exact .repeatWhile ec eb
    · rw [hl, hbody.listing]
      change s₂.listing ++ _ = _
      rw [hcond.listing, hemit.listing, List.append_assoc, List.append_assoc,
        Outline.entries_singleton]
      rfl
  exact .single hs hw (fun hs ↦ ⟨hs, pc.follows, xb.follows⟩) ⟨pc.fills, pc.laid, xb.laid⟩
    ⟨pc.withoutReturn, pc.returnsProperly, xb.returnsProperly⟩
    fun _ ↦ ⟨rfl, heffect hbody.effect⟩

theorem wrote_forIn {span : Span} (hs : π.spans s.offset s'.offset) (he : s.frame.hasEffect)
    (h : Emitting π rec (fun r ↦ forIn Γ r span) s t s') : Wrote π Γ 1 s s' := by
  obtain ⟨opcode, s₁, h₁, h⟩ := h.bind
  obtain ⟨⟨x, xSpan⟩, s₂, h₂, h⟩ := h.bind
  obtain ⟨settled, s₃, h₃, h⟩ := h.bind
  obtain ⟨-, rfl⟩ := pure_ok h.const
  obtain ⟨s₄, h, hl, hh, hc, heffect⟩ := inScope_ok h₃
  obtain ⟨slot, s₅, h₅, h⟩ := h.bind
  obtain ⟨_, s₆, h₆, h⟩ := h.bind
  obtain ⟨hidden, s₇, h₇, h⟩ := h.bind
  obtain ⟨_, s₈, h₈, h⟩ := h.bind
  obtain ⟨t, s₉, h₉, h⟩ := h.bind
  obtain ⟨element, s₁₀, h₁₀, h⟩ := h.bind
  obtain ⟨-, rfl⟩ := demand_ok h₁₀.const
  obtain ⟨_, s₁₁, h₁₁, h⟩ := h.bind
  obtain ⟨_, s₁₂, h₁₂, h⟩ := h.bind
  obtain ⟨body, c, hbody⟩ := writes_conditionalBlock h
  obtain ⟨hi, hhole, hc₁, he₁⟩ := inside_reserve h₁.const
  have hk := keeps_variableName h₂.const
  have hscope : ({ s₂ with environment := s₂.environment.push .empty } : State).context
      = s.context.enterScope := by
    change s₂.context.enterScope = _
    rw [hk.context, hc₁]
  obtain ⟨hslot, -, hl₅, hh₅, hc₅, he₅⟩ := newSlot_ok h₅.const
  obtain ⟨hhidden, hbound, hl₇, hh₇, hc₇, he₇⟩ := newSlot_ok h₇.const
  have hn₆ := adds_number h₆.const
  have hn₈ := adds_number h₈.const
  obtain ⟨iteratee, hiteratee⟩ := (wrote_operandFitting h₉).operands
    (hn₈.effect (he₇ (hn₆.effect (he₅ (hk.effect (he₁ he))))))
  rw [hscope] at hslot hc₅
  rw [hn₆.context, hc₅] at hhidden hc₇
  -- the two slots of a loop are taken one behind the other
  have hidden_eq : hidden = slot + 1 := by
    rw [hhidden, hslot]
    rfl
  subst hidden_eq
  -- everything up to the value stands behind the word reserved for the opcode
  have hi₆ := (hi.adds hk.listing hk.holes).adds (hn₆.listing.trans (congrArg (· ++ _) hl₅))
    (hn₆.holes.trans hh₅)
  have hi₈ := hi₆.adds (hn₈.listing.trans (congrArg (· ++ _) hl₇)) (hn₈.holes.trans hh₇)
  exact wrote_loop hs hi₈ hhole (hn₈.context.trans hc₇) hiteratee h₁₁.const h₁₂.const hslot
    hbound rfl rfl rfl hbody hl hh hc heffect

end Analysis

end Pictograph
