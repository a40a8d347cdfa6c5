import Pictograph.Proofs.Analysis.Balance
import Pictograph.Proofs.Compilation.ReachedStates

/-!
# What the branches of a chain have in common

A branch reports the slots that got a value in its block and takes the values back. Behind a chain
with a last branch without a condition the slots that every branch reported have a value. The
analysis keeps only the reports. To say what was the case in front of each block and at its end, the
chain is run once more with these environments in place of the reports; the run of the chain is that
run, with the reports read off it.

A report names slots, and it names them from all scopes, also from those that are left with the
branch. That it says what it should about a variable from outside is due to the slots being distinct
in front of the chain, and it remains so in the branches.

## Main definitions

* `BlockEnds`: the environments at the two ends of a block.
* `Analysis.ifChainBlocks`: a chain, with the ends of its blocks.
* `Passes`: what blocks may do to a context, one after the other.

## Main results

* `Analysis.ifChain_eq`: the chain computes what is read off its blocks.
* `Passes.exists_occupant?`: no branch leaves a value behind.
* `Passes.exists_occupant?_settleEach`: what all reports have in common has a value.
* `branches_intersect`: behind a chain a variable has a value if it had one in every block.
-/

namespace Pictograph

/-- The variables in reach in front of a block that may be skipped, and at its end, before it is
left. -/
structure BlockEnds where
  /-- In front of the block. -/
  front : Environment
  /-- At the end of the block. -/
  ending : Environment

/-- The report of a block. -/
def BlockEnds.settled (Γ : Setting) (b : BlockEnds) : List Slot := b.ending.settledHere !Γ.isStatic

namespace Analysis

/-! ## Runs with the ends of blocks -/

/-- Analyses a block that may be skipped, and returns its ends. -/
def blockEnds (Γ : Setting) (rec : Recursion) : Analysis BlockEnds := do
  let front := (← get).environment
  enterConditional !Γ.isStatic
  modifyFrame fun f ↦ { f with flowDepth := f.flowDepth + 1 }
  let _ ← reading (Reading.expectConstruct .blockOpen Construct.blockOpen.spelling)
  let count ← reserveCount
  statements Γ rec
  fillCount count
  let ending := (← get).environment
  modifyEnvironment fun _ ↦ (ending.leaveConditional !Γ.isStatic).2
  modifyFrame fun f ↦
    { f with hasEffect := true, flowDepth := f.flowDepth - 1, hasReturned := false }
  return ⟨front, ending⟩

/-- Analyses a condition and its block, and returns the ends of the block. -/
def branchEnds (Γ : Setting) (rec : Recursion) : Analysis BlockEnds :=
  inScope Γ do
    condition Γ rec
    blockEnds Γ rec

/-- Analyses a chain of branches, and returns the ends of their blocks and whether the last one has
no condition. -/
def ifChainBlocks (Γ : Setting) (rec : Recursion) : Analysis (List BlockEnds × Bool) := do
  emit .ifChain
  let count ← reserveCount
  let first ← branchEnds Γ rec
  let conditional ← repeatUntil (fun branches ↦ do
    if ← accepts .elseIfBranch then
      emit .elseIfBranch
      return .inl (branches ++ [← branchEnds Γ rec])
    return .inr branches) [first]
  if ← accepts .elseBranch then
    emit .elseBranch
    let last ← inScope Γ (blockEnds Γ rec)
    fillCount count
    modifyEnvironment
      ((inEach ((conditional ++ [last]).map (·.settled Γ))).foldl Environment.settle)
    return (conditional ++ [last], true)
  else
    fillCount count
    return (conditional, false)

theorem conditionalBlock_eq (Γ : Setting) (rec : Recursion) :
    conditionalBlock Γ rec = (·.settled Γ) <$> blockEnds Γ rec := by
  funext s
  simp only [conditionalBlock, blockEnds, map_eq_pure_bind, bind_assoc, pure_bind]
  refine Eq.trans ?_ (bind_of_ok (m := get) rfl).symm
  rfl

theorem inScope_map {α β : Type} (Γ : Setting) (f : α → β) (m : Analysis α) :
    inScope Γ (f <$> m) = f <$> inScope Γ m := by
  simp only [inScope, map_eq_pure_bind, bind_assoc, pure_bind]
  congr 1
  funext _
  congr 1
  funext a
  congr 1
  funext s
  cases s.environment.pop? with
  | none => rfl
  | some popped => simp only [bind_assoc, pure_bind]

theorem branch_eq (Γ : Setting) (rec : Recursion) :
    branch Γ rec = (·.settled Γ) <$> branchEnds Γ rec := by
  rw [branch, branchEnds, ← inScope_map, map_bind, conditionalBlock_eq]

/-- **The chain computes what is read off its blocks.** -/
theorem ifChain_eq (Γ : Setting) (rec : Recursion) :
    ifChain Γ rec = (fun _ ↦ Ty.nothingness) <$> ifChainBlocks Γ rec := by
  -- the loop over the further branches passes on reports where that of the blocks passes on blocks
  have hfurther (blocks : List BlockEnds) :
      repeatUntil (fun branches ↦ do
        if ← accepts .elseIfBranch then
          emit .elseIfBranch
          return .inl (branches ++ [← branch Γ rec])
        return .inr branches) (blocks.map (·.settled Γ))
      = (·.map (·.settled Γ)) <$> repeatUntil (fun branches ↦ do
        if ← accepts .elseIfBranch then
          emit .elseIfBranch
          return .inl (branches ++ [← branchEnds Γ rec])
        return .inr branches) blocks := by
    refine repeatUntil_map (fun blocks ↦ ?_) blocks
    rw [map_bind]
    congr 1
    funext accepted
    cases accepted with
    | true =>
      simp only [if_true, branch_eq, map_eq_pure_bind, bind_assoc, pure_bind, Sum.map_inl,
        List.map_append, List.map_singleton]
    | false => rfl
  rw [ifChain, ifChainBlocks, map_bind]
  congr 1
  funext _
  rw [map_bind]
  congr 1
  funext count
  refine (congrArg (· >>= _) (branch_eq Γ rec)).trans ?_
  rw [bind_map_left, map_bind]
  congr 1
  funext first
  refine (congrArg (· >>= _) (hfurther [first])).trans ?_
  rw [bind_map_left, map_bind]
  congr 1
  funext conditional
  rw [map_bind]
  congr 1
  funext accepted
  cases accepted with
  | true =>
    simp only [if_true, conditionalBlock_eq, inScope_map, bind_map_left, map_bind, map_pure,
      List.map_append, List.map_singleton]
  | false =>
    simp only [Bool.false_eq_true, if_false, map_bind, map_pure]

end Analysis

/-! ## What blocks do -/

/-- A block in a scope of its own, behind a condition or without one. -/
def Passed (Γ : Setting) (c : Context) (b : BlockEnds) (c' : Context) : Prop :=
  ∃ c₁ c₂ : Context, c.enterScope.Grows c₁ ∧ c₁.environment = b.front
    ∧ (c₁.enterBlock !Γ.isStatic).Grows c₂ ∧ c₂.environment = b.ending
    ∧ c' = (c₂.leaveBlock !Γ.isStatic).leaveScope

/-- Blocks in scopes of their own, one after the other. -/
inductive Passes (Γ : Setting) (c : Context) : List BlockEnds → Context → Prop
  | none : Passes Γ c [] c
  | snoc {blocks : List BlockEnds} {b : BlockEnds} {c₁ c₂ : Context} (h : Passes Γ c blocks c₁)
      (hb : Passed Γ c₁ b c₂) : Passes Γ c (blocks ++ [b]) c₂

section

variable {Γ : Setting} {c c' : Context} {b : BlockEnds} {blocks : List BlockEnds} {slot : Slot}
  {v : Variable}

theorem Passed.grows (h : Passed Γ c b c') : c.Grows c' := by
  obtain ⟨c₁, c₂, hcondition, -, hblock, -, rfl⟩ := h
  exact hcondition.branch hblock

theorem Passes.grows (h : Passes Γ c blocks c') : c.Grows c' := by
  induction h with
  | none => exact .refl c
  | snoc _ hb ih => exact ih.trans hb.grows

/-- At the end of a block, too, variables are in slots of their own. -/
theorem Passed.apart (h : Passed Γ c b c') (hd : c.Distinct) : b.ending.Apart := by
  obtain ⟨c₁, c₂, hcondition, -, hblock, hending, -⟩ := h
  have hd₂ : c₂.Distinct := ((hd.enterScope.grows hcondition).enterBlock _).grows hblock
  rw [← hending]
  exact Environment.Distinct.apart hd₂

theorem Passes.apart (h : Passes Γ c blocks c') (hd : c.Distinct) :
    ∀ b ∈ blocks, b.ending.Apart := by
  induction h with
  | none => exact fun b hb ↦ absurd hb List.not_mem_nil
  | snoc h hb ih =>
    intro b hmem
    obtain hmem | hmem := List.mem_append.mp hmem
    · exact ih b hmem
    · obtain rfl := List.mem_singleton.mp hmem
      exact hb.apart (hd.grows h.grows)

/-- A variable without a value in front of a block has none behind it. -/
theorem Passed.exists_occupant? (h : Passed Γ c b c') (hd : c.Distinct)
    (hw : slot.storage = .frame ∨ !Γ.isStatic) (hv : c.environment.occupant? slot = some v)
    (hfront : b.front.counter? slot = some 0) :
    ∃ v', c'.environment.occupant? slot = some v' ∧ v.Evolves v' ∧ v'.readiness = 0 := by
  have hapart := h.apart hd
  have hapart' : c'.environment.Apart := Environment.Distinct.apart (hd.grows h.grows)
  obtain ⟨v', hv', hev⟩ := h.grows.environment.toExtends.exists_occupant? hapart' hv
  obtain ⟨c₁, c₂, -, hfront', hblock, hending, rfl⟩ := h
  obtain ⟨v₁, hv₁, hzero⟩ := Environment.counter?_eq_some.mp hfront
  have hextends : (b.front.enterConditional !Γ.isStatic).Extends b.ending := by
    rw [← hfront', ← hending]
    exact hblock.environment.toExtends
  obtain ⟨v₂, hv₂, -, hreadiness⟩ :=
    hextends.exists_occupant?_shift hapart hw hv₁ (Int.le_of_eq hzero.symm)
  -- the variable in the slot is the same before the scope is left
  have hleave : (b.ending.shift (-1) !Γ.isStatic).leave.occupant? slot = some v' := by
    rw [← hending]
    exact hv'
  have hsame := (hapart.shift (-1) _).occupant?_of_leave hleave
  cases hv₂.symm.trans hsame
  exact ⟨v', hv', hev, hreadiness.trans hzero⟩

/-- **No branch leaves a value behind** in a variable that has none in front of its block. -/
theorem Passes.exists_occupant? (h : Passes Γ c blocks c') (hd : c.Distinct) (hne : blocks ≠ [])
    (hw : slot.storage = .frame ∨ !Γ.isStatic) (hv : c.environment.occupant? slot = some v)
    (hfront : ∀ b ∈ blocks, b.front.counter? slot = some 0) :
    ∃ v', c'.environment.occupant? slot = some v' ∧ v.Evolves v' ∧ v'.readiness = 0 := by
  cases h with
  | none => exact absurd rfl hne
  | @snoc _ b c₁ _ h hb =>
    have hd₁ := hd.grows h.grows
    obtain ⟨v₁, hv₁, hev⟩ := h.grows.environment.toExtends.exists_occupant?
      (Environment.Distinct.apart hd₁) hv
    obtain ⟨v', hv', hev', hzero⟩ := hb.exists_occupant? hd₁ hw hv₁
      (hfront b (List.mem_append_right _ List.mem_cons_self))
    exact ⟨v', hv', hev.trans hev', hzero⟩

theorem mem_inEach {reports : List (List Slot)} (hne : reports ≠ []) :
    slot ∈ Analysis.inEach reports ↔ ∀ report ∈ reports, slot ∈ report := by
  cases reports with
  | nil => exact absurd rfl hne
  | cons first rest =>
    simp only [Analysis.inEach, List.mem_filter, List.all_eq_true, List.contains_iff_mem,
      List.forall_mem_cons]

/-- What all reports of blocks have in common: the slots with the counter one at the end of each. -/
theorem Passes.mem_inEach (h : Passes Γ c blocks c') (hd : c.Distinct) (hne : blocks ≠ [])
    (hw : slot.storage = .frame ∨ !Γ.isStatic) :
    slot ∈ Analysis.inEach (blocks.map (·.settled Γ))
      ↔ ∀ b ∈ blocks, b.ending.counter? slot = some 1 := by
  rw [Pictograph.mem_inEach (mt List.map_eq_nil_iff.mp hne), List.forall_mem_map]
  refine forall₂_congr fun b hb ↦ ?_
  rw [BlockEnds.settled, (h.apart hd b hb).mem_settledHere, and_iff_right hw]

/-- Behind blocks of which one is taken for certain, a variable without a value in front of each has
one if it had one at the end of each. -/
theorem Passes.exists_occupant?_settleEach (h : Passes Γ c blocks c') (hd : c.Distinct)
    (hne : blocks ≠ []) (hw : slot.storage = .frame ∨ !Γ.isStatic)
    (hv : c.environment.occupant? slot = some v)
    (hfront : ∀ b ∈ blocks, b.front.counter? slot = some 0) :
    ∃ v', (c'.settleEach (blocks.map (·.settled Γ))).environment.occupant? slot = some v'
      ∧ v.Evolves v'
      ∧ v'.readiness = if ∀ b ∈ blocks, b.ending.counter? slot = some 1 then 1 else 0 := by
  obtain ⟨v₁, hv₁, hev, hzero⟩ := h.exists_occupant? hd hne hw hv hfront
  have hsettles : c'.Grows (c'.settleEach (blocks.map (·.settled Γ))) := .settleEach _ _
  have hapart := Environment.Distinct.apart ((hd.grows h.grows).grows hsettles)
  obtain ⟨v', hv', hev'⟩ := hsettles.environment.toExtends.exists_occupant? hapart hv₁
  refine ⟨v', hv', hev.trans hev', ?_⟩
  have hcounter : c'.environment.counter? slot = some 0 :=
    Environment.counter?_eq_some.mpr ⟨v₁, hv₁, hzero⟩
  have hcounter' : (c'.settleEach (blocks.map (·.settled Γ))).environment.counter? slot
      = some v'.readiness := Environment.counter?_eq_some.mpr ⟨v', hv', rfl⟩
  have hsettled := Environment.counter?_foldl_settle
    (Analysis.inEach (blocks.map (·.settled Γ))) c'.environment slot
  rw [hcounter, if_congr (h.mem_inEach hd hne hw) rfl rfl] at hsettled
  refine Option.some.inj ((hcounter'.symm.trans hsettled).trans ?_)
  split <;> rfl

end

namespace Analysis

variable {π : Notes} {Γ : Setting} {rec : Recursion} {s s' : State}
  {b : BlockEnds}

theorem blockEnds_ok (h : Emitting π rec (fun r ↦ blockEnds Γ r) s b s') :
    b.front = s.environment ∧ (∃ c, (s.context.enterBlock !Γ.isStatic).Grows c
      ∧ c.environment = b.ending ∧ s'.context = c.leaveBlock !Γ.isStatic) ∧ s'.frame.hasEffect := by
  obtain ⟨_, s₁, h₁, h⟩ := h.bind
  cases h₁.const
  obtain ⟨_, s₁, h₁, h⟩ := h.bind
  obtain rfl := enterConditional_ok h₁.const
  obtain ⟨_, s₂, h₂, h⟩ := h.bind
  cases h₂.const
  obtain ⟨_, s₃, h₃, h⟩ := h.bind
  obtain ⟨hole, s₄, h₄, h⟩ := h.bind
  cases h₄.const
  obtain ⟨_, s₅, h₅, h⟩ := h.bind
  obtain ⟨_, s₆, h₆, h⟩ := h.bind
  obtain ⟨_, -, rfl⟩ := filling_ok h₆.const
  obtain ⟨_, s₇, h₇, h⟩ := h.bind
  cases h₇.const
  obtain ⟨_, s₈, h₈, h⟩ := h.bind
  cases h₈.const
  obtain ⟨_, s₉, h₉, h⟩ := h.bind
  cases h₉.const
  obtain ⟨rfl, rfl⟩ := pure_ok h.const
  obtain ⟨body, hbody⟩ := wrote_statements h₅
  have hgrows : s₃.context.Grows s₅.context := hbody.emits.grows
  rw [(keeps_reading h₃.const).context] at hgrows
  exact ⟨rfl, ⟨s₅.context, hgrows, rfl, rfl⟩, rfl⟩

theorem passed_branchEnds (h : Emitting π rec (fun r ↦ branchEnds Γ r) s b s')
    (he : s.frame.hasEffect) :
    Passed Γ s.context b s'.context ∧ s'.frame.hasEffect := by
  obtain ⟨s₁, h, -, -, hc, heffect⟩ := inScope_ok h
  obtain ⟨_, s₂, h₁, h⟩ := h.bind
  obtain ⟨condition, hcondition, -⟩ := written_condition h₁ he
  obtain ⟨hfront, ⟨c, hgrows, hending, hc₁⟩, he₁⟩ := blockEnds_ok h
  refine ⟨⟨s₂.context, c, hcondition.emits.grows, hfront.symm, hgrows, hending, ?_⟩, heffect he₁⟩
  rw [hc, hc₁]

theorem passed_lastEnds (h : Emitting π rec (fun r ↦ inScope Γ (blockEnds Γ r)) s b s') :
    Passed Γ s.context b s'.context ∧ s'.frame.hasEffect := by
  obtain ⟨s₁, h, -, -, hc, heffect⟩ := inScope_ok h
  obtain ⟨hfront, ⟨c, hgrows, hending, hc₁⟩, he₁⟩ := blockEnds_ok h
  refine ⟨⟨s.context.enterScope, c, .refl _, hfront.symm, hgrows, hending, ?_⟩, heffect he₁⟩
  rw [hc, hc₁]

/-- The further branches of a chain. -/
theorem passes_furtherEnds {c : Context} {blocks result : List BlockEnds}
    (h : Emitting π rec (fun r ↦ repeatUntil (fun branches ↦ do
      if ← accepts .elseIfBranch then
        emit .elseIfBranch
        return .inl (branches ++ [← branchEnds Γ r])
      return .inr branches) blocks) s result s')
    (hblocks : Passes Γ c blocks s.context) (hne : blocks ≠ []) (he : s.frame.hasEffect) :
    Passes Γ c result s'.context ∧ result ≠ [] ∧ s'.frame.hasEffect := by
  refine h.repeatUntil (Q := fun blocks s result s' ↦ Passes Γ c blocks s.context → blocks ≠ [] →
    s.frame.hasEffect → Passes Γ c result s'.context ∧ result ≠ [] ∧ s'.frame.hasEffect)
    ?_ ?_ hblocks hne he
  · intro blocks s result s' h hblocks hne he
    obtain ⟨accepted, s₁, h₁, h⟩ := h.bind
    have hk := keeps_accepts h₁.const
    rcases h.ite with ⟨-, h⟩ | ⟨-, h⟩
    · obtain ⟨_, s₂, h₂, h⟩ := h.bind
      obtain ⟨_, s₃, h₃, h⟩ := h.bind
      cases (pure_ok h.const).1
    · obtain ⟨hresult, rfl⟩ := pure_ok h.const
      cases hresult
      rw [hk.context]
      exact ⟨hblocks, hne, hk.effect he⟩
  · intro blocks s blocks' s₁ result s' h ih hblocks hne he
    obtain ⟨accepted, s₂, h₂, h⟩ := h.bind
    have hk := keeps_accepts h₂.const
    rcases h.ite with ⟨-, h⟩ | ⟨-, h⟩
    · obtain ⟨_, s₃, h₃, h⟩ := h.bind
      obtain ⟨b, s₄, h₄, h⟩ := h.bind
      obtain ⟨hresult, rfl⟩ := pure_ok h.const
      cases hresult
      have hemit := adds_emit h₃.const
      obtain ⟨hb, he'⟩ := passed_branchEnds h₄ (hemit.effect (hk.effect he))
      rw [hemit.context, hk.context] at hb
      exact ih (hblocks.snoc hb) (List.append_ne_nil_of_right_ne_nil _ (List.cons_ne_nil _ _)) he'
    · cases (pure_ok h.const).1

/-- The blocks of a chain stand in scopes of their own, one after the other. Behind a last one
without a condition the slots that all report have a value. -/
theorem passes_ifChainBlocks {blocks : List BlockEnds} {isTotal : Bool}
    (h : Emitting π rec (fun r ↦ ifChainBlocks Γ r) s (blocks, isTotal) s')
    (he : s.frame.hasEffect) :
    ∃ c, Passes Γ s.context blocks c ∧ blocks ≠ []
      ∧ s'.context = if isTotal then c.settleEach (blocks.map (·.settled Γ)) else c := by
  obtain ⟨_, s₁, h₁, h⟩ := h.bind
  have hemit := adds_emit h₁.const
  obtain ⟨count, s₂, h₂, h⟩ := h.bind
  cases h₂.const
  obtain ⟨first, s₃, h₃, h⟩ := h.bind
  obtain ⟨hfirst, he₃⟩ := passed_branchEnds h₃ (hemit.effect he)
  have hpasses : Passes Γ s.context [first] s₃.context := by
    rw [← hemit.context]
    exact Passes.none.snoc hfirst
  obtain ⟨conditional, s₄, h₄, h⟩ := h.bind
  obtain ⟨hconditional, hne, he₄⟩ := passes_furtherEnds h₄ hpasses (List.cons_ne_nil _ _) he₃
  obtain ⟨accepted, s₅, h₅, h⟩ := h.bind
  have hk := keeps_accepts h₅.const
  rcases h.ite with ⟨-, h⟩ | ⟨-, h⟩
  · obtain ⟨_, s₆, h₆, h⟩ := h.bind
    obtain ⟨last, s₇, h₇, h⟩ := h.bind
    obtain ⟨_, s₈, h₈, h⟩ := h.bind
    obtain ⟨_, -, rfl⟩ := filling_ok h₈.const
    obtain ⟨_, s₉, h₉, h⟩ := h.bind
    cases h₉.const
    obtain ⟨hresult, rfl⟩ := pure_ok h.const
    cases hresult
    obtain ⟨hlast, -⟩ := passed_lastEnds h₇
    rw [(adds_emit h₆.const).context, hk.context] at hlast
    exact ⟨s₇.context, hconditional.snoc hlast,
      List.append_ne_nil_of_right_ne_nil _ (List.cons_ne_nil _ _), rfl⟩
  · obtain ⟨_, s₆, h₆, h⟩ := h.bind
    obtain ⟨_, -, rfl⟩ := filling_ok h₆.const
    obtain ⟨hresult, rfl⟩ := pure_ok h.const
    cases hresult
    exact ⟨s₄.context, hconditional, hne, hk.context⟩

/-- A chain that is accepted runs with the ends of its blocks. -/
theorem exists_ifChainBlocks {fuel : Nat} {t : Ty}
    (h : ifChain Γ (expression fuel) s = .ok t s') :
    ∃ blocks isTotal, ifChainBlocks Γ (expression fuel) s = .ok (blocks, isTotal) s' := by
  rw [ifChain_eq] at h
  obtain ⟨⟨blocks, isTotal⟩, hrun, -⟩ := map_ok h
  exact ⟨blocks, isTotal, hrun⟩

end Analysis

/-- **Branches intersect.** Wherever a chain of branches is accepted, a variable that is declared in
front of it, local or a field that the body may use, and has the counter zero in front of each block
of the chain, has the counter one behind the chain if the chain has a last branch without a
condition and the counter was one at the end of each block, and zero otherwise. -/
theorem branches_intersect {cat : Catalogue} {options : Options} {session : Session} {c : Class}
    {m : Member} {tokens : List Token} {n : Nat} {q : Query} {t : Ty} {s' : State}
    (h : ReachedIn cat options session c m tokens (n + 1) q) (hq : q.token.asksFor .ifBranch)
    (hanswer : (Analysis.expression (n + 1)).answer q = .ok t s') :
    ∃ blocks isTotal,
      Analysis.ifChainBlocks q.setting (Analysis.expression n) q.begun = .ok (blocks, isTotal) s'
      ∧ ∀ st v, q.state.environment.Holds st v → (st = .frame ∨ !q.setting.isStatic) →
        (∀ b ∈ blocks, b.front.counter? ⟨st, v.slot⟩ = some 0) →
        ∃ v', s'.environment.occupant? ⟨st, v.slot⟩ = some v' ∧ v'.name = v.name
          ∧ v'.readiness
            = if isTotal ∧ ∀ b ∈ blocks, b.ending.counter? ⟨st, v.slot⟩ = some 1 then 1 else 0 := by
  rw [Query.answer_of_asksFor hq nofun] at hanswer
  have hchain : Analysis.ifChain q.setting (Analysis.expression n) q.begun = .ok t s' := hanswer
  obtain ⟨blocks, isTotal, hrun⟩ := Analysis.exists_ifChainBlocks hchain
  refine ⟨blocks, isTotal, hrun, fun st v hv hw hfront ↦ ?_⟩
  have hdistinct : q.begun.context.Distinct := h.distinct
  have hv : q.begun.environment.occupant? ⟨st, v.slot⟩ = some v :=
    (Environment.Distinct.apart hdistinct).occupant?_self (Environment.mem_stored.mpr hv)
  obtain ⟨c', hpasses, hne, hcontext⟩ := Analysis.passes_ifChainBlocks
    (Analysis.emitting_of_ok (m := fun r ↦ Analysis.ifChainBlocks q.setting r) hrun) rfl
  have henvironment := congrArg Context.environment hcontext
  cases isTotal with
  | false =>
    obtain ⟨v', hv', hev, hzero⟩ := hpasses.exists_occupant? hdistinct hne hw hv hfront
    rw [show s'.environment = c'.environment from henvironment]
    exact ⟨v', hv', hev.name, by simpa using hzero⟩
  | true =>
    obtain ⟨v', hv', hev, hcounter⟩ :=
      hpasses.exists_occupant?_settleEach hdistinct hne hw hv hfront
    rw [show s'.environment = _ from henvironment]
    exact ⟨v', hv', hev.name, by simpa using hcounter⟩

namespace Sample

/-- A body of an initializer in which each of three branches gives `x` a value, and one of them the
field `f`, `🍰 x 🚂 🍊 👍 🍇 🍮 x 1 🍉 🍋 👎 🍇 🍮 x 2 🍮 f 👍 🍉 🍓 🍇 🍮 x 3 🍉 🍉`. -/
def threeBranches : List Token :=
  [ask .declare, word (.reference "x"), word (.identifier Vocabulary.integer),
    ask .ifBranch, word (.boolean true), ask .blockOpen,
      ask .assign, word (.reference "x"), word (.integer 1), ask .blockClose,
    ask .elseIfBranch, word (.boolean false), ask .blockOpen,
      ask .assign, word (.reference "x"), word (.integer 2),
      ask .assign, word (.reference "f"), word (.boolean true), ask .blockClose,
    ask .elseBranch, ask .blockOpen,
      ask .assign, word (.reference "x"), word (.integer 3), ask .blockClose,
    ask .blockClose]

/-- The counters of the variable and of the field of `threeBranches`, in front of a block and at its
end. -/
def blockCounters (b : BlockEnds) : List (Option Int × Option Int) :=
  [⟨.frame, 0⟩, ⟨.object, 0⟩].map fun slot ↦ (b.front.counter? slot, b.ending.counter? slot)

theorem reachedIn_threeBranches :
    ∃ q, ReachedIn catalogue {} .start parentClass initializer threeBranches 27 q
      ∧ q.token.asksFor .ifBranch ∧ q.setting.isStatic = false
      ∧ (q.state.environment.occupant? ⟨.frame, 0⟩).isSome
      ∧ (q.state.environment.occupant? ⟨.object, 0⟩).isSome
      ∧ (Analysis.value? ((Analysis.expression 27).answer q)).isSome
      ∧ (Analysis.value? (Analysis.ifChainBlocks q.setting (Analysis.expression 26) q.begun)).map
          (Prod.map (·.map blockCounters) id)
        = some ([[(some 0, some 1), (some 0, some 0)], [(some 0, some 1), (some 0, some 1)],
            [(some 0, some 1), (some 0, some 0)]], true) := by
  refine ⟨?chain, ⟨by decide +kernel, _, rfl, .asked ?asks⟩, ?_, ?_, ?_, ?_, ?_, ?_⟩
  case asks =>
    refine asks_body (.behind rfl (.assoc ?_))
    refine .behind_value (ask .declare) (by decide +kernel) (.assoc (.assoc (.behind rfl ?_)))
    refine .assoc (.behind_call ?declaration (t := .nothingness) (by decide +kernel) ?behind)
    case behind =>
      refine .assoc (.behind rfl (.behind_value () (by decide +kernel) (.assoc ?_)))
      refine .behind_value none (by decide +kernel) (.behind rfl (.first ?_))
      refine .behind_value (ask .ifBranch) (by decide +kernel) (.first ?_)
      refine .behind_value () (by decide +kernel) (.first ?_)
      exact .call
    case declaration => exact fun h ↦ absurd (congrArg (·.token) h) (by decide +kernel)
  all_goals decide +kernel

end Sample

/-- Three branches: all of them give `x` a value, which it has behind the chain, and one of them
gives the field a value, which has none behind the chain. -/
theorem branches_intersect_sample :
    ∃ q t s', ReachedIn Sample.catalogue {} .start Sample.parentClass Sample.initializer
        Sample.threeBranches 27 q
      ∧ q.token.asksFor .ifBranch ∧ (Analysis.expression 27).answer q = .ok t s'
      ∧ s'.environment.counter? ⟨.frame, 0⟩ = some 1
      ∧ s'.environment.counter? ⟨.object, 0⟩ = some 0 := by
  obtain ⟨q, hq, hasks, hstatic, hx, hf, hvalue, hcounters⟩ := Sample.reachedIn_threeBranches
  obtain ⟨t, ht⟩ := Option.isSome_iff_exists.mp hvalue
  have hanswer := Analysis.eq_ok_of_value? ht
  obtain ⟨blocks, isTotal, hrun, hall⟩ := branches_intersect hq hasks hanswer
  obtain ⟨x, hx⟩ := Option.isSome_iff_exists.mp hx
  obtain ⟨f, hf⟩ := Option.isSome_iff_exists.mp hf
  obtain ⟨hx, hxslot⟩ := Environment.mem_stored_of_occupant? hx
  obtain ⟨hf, hfslot⟩ := Environment.mem_stored_of_occupant? hf
  have hallx := hall .frame x (Environment.mem_stored.mp hx) (.inl rfl)
  have hallf := hall .object f (Environment.mem_stored.mp hf) (.inr (by rw [hstatic]; rfl))
  rw [hxslot] at hallx
  rw [hfslot] at hallf
  rw [hrun] at hcounters
  obtain ⟨hblocks, rfl⟩ := Prod.mk.inj (Option.some.inj hcounters)
  have hends : ∀ b ∈ blocks, Sample.blockCounters b = [(some 0, some 1), (some 0, some 0)]
      ∨ Sample.blockCounters b = [(some 0, some 1), (some 0, some 1)] := by
    intro b hb
    have hmem : Sample.blockCounters b ∈ blocks.map Sample.blockCounters := List.mem_map_of_mem hb
    rw [show blocks.map Sample.blockCounters = _ from hblocks] at hmem
    simpa [or_comm, or_left_comm] using hmem
  have hmissing : ∃ b ∈ blocks, Sample.blockCounters b = [(some 0, some 1), (some 0, some 0)] := by
    refine List.mem_map.mp ?_
    rw [show blocks.map Sample.blockCounters = _ from hblocks]
    exact List.mem_cons_self
  simp only [Sample.blockCounters, List.map_cons, List.map_nil, List.cons.injEq, Prod.mk.injEq,
    and_true] at hends hmissing
  obtain ⟨x', hx', -, hone⟩ := hallx fun b hb ↦ by grind
  obtain ⟨f', hf', -, hzero⟩ := hallf fun b hb ↦ by grind
  rw [if_pos ⟨rfl, fun b hb ↦ by grind⟩] at hone
  rw [if_neg (by grind)] at hzero
  exact ⟨q, t, _, hq, hasks, hanswer, Environment.counter?_eq_some.mpr ⟨x', hx', hone⟩,
    Environment.counter?_eq_some.mpr ⟨f', hf', hzero⟩⟩

end Pictograph
