import Pictograph.Proofs.Analysis.Operands
import Pictograph.Analysis.Storage

/-!
# Reading and writing variables

The constructs that declare, read and write variables emit accesses to the slot of the variable that
the name refers to. Behind the value of an assignment the name is looked up once more, so it may
refer to a variable that the value declared.
-/

namespace Pictograph

namespace Analysis

variable {π : Notes} {Γ : Setting} {rec : Recursion}
  {s s₁ s₂ s₃ s₄ s' : State} {t : Ty} {u : Unit} {x : String} {span : Span}

/-! ## Steps -/

theorem resolve?_ok {found? : Option (Storage × Variable)} (h : resolve? x s = .ok found? s') :
    s.environment.resolve? x = found? ∧ s = s' := by
  obtain ⟨_, s₁, h₁, h⟩ := bind_ok h
  cases h₁
  exact pure_ok h

theorem declare_ok {v : Variable} (h : declare v s = .ok u s') :
    ∃ e, s.environment.declare v = .ok e ∧ s' = { s with environment := e } := by
  unfold declare at h
  split at h
  · next e he =>
    cases h
    exact ⟨e, he, rfl⟩
  · cases h

theorem requireSlot_ok {slot : Nat} (h : requireSlot Γ slot span s = .ok u s') :
    slot < Γ.slotBound ∧ s = s' := by
  obtain ⟨hslot, rfl⟩ := require_ok h
  rw [Bool.and_eq_true, decide_eq_true_eq, decide_eq_true_eq] at hslot
  exact ⟨Nat.lt_min.mpr hslot, rfl⟩

theorem newSlot_ok {slot : Nat} (h : newSlot Γ span s = .ok slot s') :
    slot = s.context.slotCount ∧ slot < Γ.slotBound ∧ s'.listing = s.listing ∧ s'.holes = s.holes
      ∧ s'.context = s.context.addSlots 1 ∧ (s.frame.hasEffect → s'.frame.hasEffect) := by
  obtain ⟨f, s₁, h₁, h⟩ := bind_ok h
  cases h₁
  obtain ⟨_, s₂, h₂, h⟩ := bind_ok h
  obtain ⟨hbound, rfl⟩ := requireSlot_ok h₂
  obtain ⟨_, s₃, h₃, h⟩ := bind_ok h
  cases h₃
  obtain ⟨rfl, rfl⟩ := pure_ok h
  exact ⟨rfl, hbound, rfl, rfl, rfl, id⟩

theorem adds_emitAccess {storage : Storage} {action : Access} {slot : Nat}
    (h : emitAccess storage action slot s = .ok u s') :
    Adds [(Opcode.access storage action).entry, immediateNumber slot] s s' := by
  obtain ⟨_, s₁, h₁, h⟩ := bind_ok h
  refine (adds_emit h₁).trans ?_
  split at h
  · obtain ⟨_, s₂, h₂, h⟩ := bind_ok h
    exact (keeps_useSelf h₂).trans (adds_number h)
  · exact adds_number h

theorem requireReady_ok {v : Variable} (h : v.requireReady span = .ok ()) : v.isReady := by
  unfold Variable.requireReady at h
  split at h
  · next hr => exact hr
  · cases h

theorem requireUndeclared_ok (h : requireUndeclared x span s = .ok u s') : s = s' := by
  obtain ⟨_, s₁, h₁, h⟩ := bind_ok h
  cases h₁
  exact (require_ok h).2

/-! ## Reading -/

theorem wrote_readVariable (hs : π.spans s.offset s'.offset)
    (hπ : ∀ st v, s.environment.resolve? x = some (st, v) → π.reads s.offset st v)
    (h : readVariable x span s = .ok t s') : Wrote π Γ 1 s s' := by
  obtain ⟨found?, s₁, h₁, h⟩ := bind_ok h
  cases h₁
  obtain ⟨⟨st, v⟩, s₂, h₂, h⟩ := bind_ok h
  obtain ⟨hx, rfl⟩ := demand_ok h₂
  obtain ⟨_, s₃, h₃, h⟩ := bind_ok h
  obtain ⟨hready, rfl⟩ := lift_ok h₃
  obtain ⟨_, s₄, h₄, h⟩ := bind_ok h
  obtain ⟨-, rfl⟩ := pure_ok h
  have hadds := adds_emitAccess h₄
  exact .leaf (.access st .load) [UInt32.ofNat v.slot] hs rfl rfl rfl hadds rfl rfl id
    (.load hx (requireReady_ok hready) (hπ st v hx))

theorem wrote_stepVariable {construct : Construct} {action : Access}
    (hs : π.spans s.offset s'.offset) (ha : action = .increment ∨ action = .decrement)
    (hπ : ∀ x span cursor, Reading.variableName s.cursor = .ok (x, span) cursor →
      ∀ st v, s.environment.resolve? x = some (st, v) → π.reads s.offset st v)
    (h : stepVariable Γ construct action s = .ok t s') : Wrote π Γ 1 s s' := by
  obtain ⟨⟨x, span⟩, s₁, h₁, h⟩ := bind_ok h
  obtain ⟨cursor, hcursor, rfl⟩ := reading_ok h₁
  obtain ⟨found?, s₂, h₂, h⟩ := bind_ok h
  cases h₂
  obtain ⟨⟨st, v⟩, s₃, h₃, h⟩ := bind_ok h
  obtain ⟨hx, rfl⟩ := demand_ok h₃
  obtain ⟨_, s₄, h₄, h⟩ := bind_ok h
  obtain ⟨hready, rfl⟩ := lift_ok h₄
  obtain ⟨_, s₅, h₅, h⟩ := bind_ok h
  obtain ⟨-, rfl⟩ := require_ok h₅
  obtain ⟨mutated, s₆, h₆, h⟩ := bind_ok h
  obtain ⟨hmutated, rfl⟩ := lift_ok h₆
  obtain ⟨_, s₇, h₇, h⟩ := bind_ok h
  cases h₇
  obtain ⟨_, s₈, h₈, h⟩ := bind_ok h
  obtain ⟨-, rfl⟩ := pure_ok h
  have hadds := adds_emitAccess h₈
  have hl : (Opcode.access st action).layout? = some { words := 1 } := by
    obtain rfl | rfl := ha <;> rfl
  exact .leaf (.access st action) [UInt32.ofNat v.slot] hs rfl rfl hl hadds rfl rfl id
    (.step hx (requireReady_ok hready) hmutated (hπ x span cursor hcursor st v hx) ha)

/-! ## Declaring -/

/-- A variable is declared without code. -/
theorem writes_declare {v : Variable} {slot : Nat} (h₁ : newSlot Γ span s = .ok slot s₁)
    (h₂ : declare v s₁ = .ok u s') (hv : v.slot = slot)
    (hr : 0 ≤ v.readiness ∧ v.readiness ≤ 1) (ho : v.isReady → v.type.isOptional) :
    Writes π Γ [] s s' ∧ (s.frame.hasEffect → s'.frame.hasEffect) := by
  obtain ⟨rfl, hbound, hlisting, hholes, hcontext, heffect⟩ := newSlot_ok h₁
  obtain ⟨e, he, rfl⟩ := declare_ok h₂
  have henv : s₁.environment = s.context.environment := congrArg Context.environment hcontext
  rw [henv] at he
  have hem : Emits π.toPins Γ (.code []) s.offset s.context (s₁.context.withEnvironment e) := by
    rw [hcontext]
    exact .declare hv (hv ▸ hbound) hr ho he
  exact ⟨⟨⟨hem, hlisting.trans (List.append_nil _).symm, hholes⟩, .nil⟩, heffect⟩

theorem writes_declareVariable (h : declareVariable Γ s = .ok t s') :
    Writes π Γ [] s s' ∧ (s.frame.hasEffect → s'.frame.hasEffect) := by
  obtain ⟨⟨x, span⟩, s₁, h₁, h⟩ := bind_ok h
  obtain ⟨_, s₂, h₂, h⟩ := bind_ok h
  obtain rfl := requireUndeclared_ok h₂
  obtain ⟨⟨type, dynamic⟩, s₃, h₃, h⟩ := bind_ok h
  obtain ⟨slot, s₄, h₄, h⟩ := bind_ok h
  obtain ⟨_, s₅, h₅, h⟩ := bind_ok h
  obtain ⟨-, rfl⟩ := pure_ok h
  have hk := (keeps_variableName h₁).trans (keeps_annotated h₃)
  obtain ⟨hw, he⟩ : Writes π Γ [] s₃ s₅ ∧ (s₃.frame.hasEffect → s₅.frame.hasEffect) := by
    cases ho : type.isOptional with
    | true =>
      rw [ho, if_pos rfl] at h₅
      exact writes_declare h₄ h₅ rfl ⟨Int.one_nonneg, Int.le_refl 1⟩ fun _ ↦ ho
    | false =>
      rw [ho, if_neg Bool.false_ne_true] at h₅
      exact writes_declare h₄ h₅ rfl ⟨Int.le_refl 0, Int.one_nonneg⟩ fun hr ↦ nomatch hr
  exact ⟨.of_keeps hk hw, he ∘ hk.effect⟩

/-- A variable is declared with the value of an operand. -/
theorem written_introduce (op : Opcode) {v : Variable} {slot : Nat}
    (hop : op = .access .frame .store ∨ op = .conditionalBind) (he : s.frame.hasEffect)
    (h₁ : emit op s = .ok u s₁) (h₂ : newSlot Γ span s₁ = .ok slot s₂)
    (h₃ : emitNumber slot s₂ = .ok u s₃) (h₄ : Wrote π Γ 1 s₃ s₄) (h₅ : declare v s₄ = .ok u s')
    (hv : v.slot = slot) (hr : v.readiness = 1) (hf : op = .conditionalBind → v.isFrozen)
    (hπ : op = .access .frame .store → π.stores s.offset v) :
    ∃ o, (Written π.toPins Γ [.plain op [UInt32.ofNat slot] o] s s'
      ∧ Outline.Operands π 1 o (s.offset + 2)) ∧ s'.frame.hasEffect := by
  obtain ⟨hslot, hbound, hlisting, hholes, hcontext, heffect⟩ := newSlot_ok h₂
  have hemit := adds_emit h₁
  have hnumber := adds_number h₃
  obtain ⟨o, h₄⟩ := h₄.operands (hnumber.effect (heffect (hemit.effect he)))
  obtain ⟨e, he, rfl⟩ := declare_ok h₅
  rw [hemit.context] at hslot hcontext
  subst hv
  refine ⟨o, Written.plain op [UInt32.ofNat v.slot] ?_ ?_ h₄ rfl rfl fun hem ↦ ?_, h₄.effect⟩
  · rw [hnumber.listing, hlisting, hemit.listing, List.append_assoc]
    rfl
  · rw [hnumber.holes, hholes, hemit.holes]
  · rw [hnumber.context, hcontext] at hem
    exact .introduce hop hslot hbound hr hf hπ hem he

theorem wrote_storeNew {v : Variable} {f : Variable → Variable} (hs : π.spans s.offset s'.offset)
    (heffect : s.frame.hasEffect) (hf : ∀ v, (f v).slot = v.slot ∧ (f v).readiness = v.readiness)
    (hπ : ∀ v : Variable, v.slot = s.context.slotCount → π.stores s.offset (f v))
    (h₁ : Emitting π rec (fun r ↦ storeNew Γ r x span) s v s₁)
    (h₂ : declare (f v) s₁ = .ok u s') : Wrote π Γ 1 s s' := by
  obtain ⟨_, s₂, h₃, h⟩ := h₁.bind
  obtain ⟨slot, s₃, h₄, h⟩ := h.bind
  obtain ⟨_, s₄, h₅, h⟩ := h.bind
  obtain ⟨type, s₅, h₆, h⟩ := h.bind
  obtain ⟨rfl, rfl⟩ := pure_ok h.const
  have hslot : slot = s.context.slotCount :=
    (newSlot_ok h₄.const).1.trans (congrArg Context.slotCount (adds_emit h₃.const).context)
  obtain ⟨o, h, he⟩ := written_introduce (.access .frame .store) (.inl rfl) heffect h₃.const
    h₄.const h₅.const (wrote_operand h₆) h₂ (hf _).1 (hf _).2 (fun hop ↦ nomatch hop)
    fun _ ↦ hπ _ hslot
  exact .plain (.access .frame .store) [UInt32.ofNat slot] hs rfl rfl rfl h fun _ ↦ ⟨rfl, he⟩

theorem wrote_declareFrozen (hs : π.spans s.offset s'.offset) (he : s.frame.hasEffect)
    (hstores : ∀ v : Variable, v.isFrozen → v.slot = s.context.slotCount → π.stores s.offset v)
    (h : Emitting π rec (fun r ↦ declareFrozen Γ r) s t s') : Wrote π Γ 1 s s' := by
  obtain ⟨⟨x, span⟩, s₁, h₁, h⟩ := h.bind
  obtain ⟨_, s₂, h₂, h⟩ := h.bind
  obtain rfl := requireUndeclared_ok h₂.const
  obtain ⟨v, s₃, h₃, h⟩ := h.bind
  obtain ⟨_, s₄, h₄, h⟩ := h.bind
  obtain ⟨-, rfl⟩ := pure_ok h.const
  have hk := keeps_variableName h₁.const
  have hs' : π.spans s₁.offset s₄.offset := by rwa [hk.offset]
  refine (wrote_storeNew (f := Variable.frozen) hs' (hk.effect he) (fun _ ↦ ⟨rfl, rfl⟩)
    (fun v hv ↦ ?_) h₃ h₄.const).behind hk
  rw [hk.offset]
  exact hstores _ rfl (hv.trans (congrArg Context.slotCount hk.context))

/-! ## Assigning -/

/-- An assignment may count for another variable than the one that it writes. -/
theorem wrote_assign (hs : π.spans s.offset s'.offset) (heffect : s.frame.hasEffect)
    (hstores : ∀ v, π.stores s.offset v)
    (hπ : ∀ x span cursor, Reading.variableName s.cursor = .ok (x, span) cursor →
      ∀ st v st' v', s.environment.resolve? x = some (st, v) →
        s'.environment.resolve? x = some (st', v') →
        (⟨st', v'.slot⟩ : Slot) = ⟨st, v.slot⟩ ∨ π.strays s.offset ⟨st', v'.slot⟩)
    (h : Emitting π rec (fun r ↦ assign Γ r) s t s') : Wrote π Γ 1 s s' := by
  obtain ⟨⟨x, span⟩, s₁, h₁, h⟩ := h.bind
  obtain ⟨cursor, hcursor, rfl⟩ := reading_ok h₁.const
  obtain ⟨found?, s₂, h₂, h⟩ := h.bind
  obtain ⟨hx, rfl⟩ := resolve?_ok h₂.const
  cases found? with
  | none =>
    obtain ⟨v, s₃, h₃, h⟩ := h.bind
    obtain ⟨_, s₄, h₄, h⟩ := h.bind
    obtain ⟨-, rfl⟩ := pure_ok h.const
    -- an unknown name is declared with the value
    exact .behind (keeps_variableName h₁.const)
      (wrote_storeNew (f := id) hs heffect (fun _ ↦ ⟨rfl, rfl⟩) (fun v _ ↦ hstores v) h₃
        h₄.const)
  | some found =>
    obtain ⟨st, v⟩ := found
    obtain ⟨mutated, s₃, h₃, h⟩ := h.bind
    obtain ⟨hmutated, rfl⟩ := lift_ok h₃.const
    obtain ⟨_, s₄, h₄, h⟩ := h.bind
    cases h₄.const
    obtain ⟨_, s₅, h₅, h⟩ := h.bind
    obtain ⟨_, s₆, h₆, h⟩ := h.bind
    obtain ⟨_, s₇, h₇, h⟩ := h.bind
    obtain ⟨-, rfl⟩ := pure_ok h.const
    cases h₇.const
    have haccess := adds_emitAccess h₅.const
    obtain ⟨o, ho⟩ := (wrote_operandFitting h₆).operands (haccess.effect heffect)
    refine .plain (.access st .store) [UInt32.ofNat v.slot] hs rfl rfl rfl
      (Written.plain _ _ haccess.listing haccess.holes ho rfl rfl fun he ↦ ?_)
      fun _ ↦ ⟨rfl, ho.effect⟩
    rw [haccess.context] at he
    have hvalue : Emits π.toPins Γ (.code o) (s.offset + 2)
        (s.context.withEnvironment (s.context.environment.update x fun _ ↦ mutated)) s₆.context :=
      he
    refine .assign hx hmutated (hstores v) hvalue fun st' v' hx' ↦ ?_
    -- behind the value the name may refer to another variable, and that one counts as settled
    have hsettled := Environment.resolve?_update Variable.settle_name hx'
    have h := hπ x span cursor hcursor st v st' _ hx hsettled
    rwa [Variable.settle_slot] at h

end Analysis

end Pictograph
