import Pictograph.Proofs.Analysis.Lookups
import Pictograph.Proofs.Analysis.Operands

/-!
# Straight code

The constructs without variables and control flow emit ordinary instructions, as long as the
expressions inside them emit something. Each of them is followed once from its first step to its
last.
-/

namespace Pictograph.Analysis

variable {π : Notes} {Γ : Setting} {rec : Recursion} {s s' : State} {t : Ty}
  {span : Span}

/-! ## Values -/

theorem wrote_stringLiteral {content : String} (hs : π.spans s.offset s'.offset)
    (h : stringLiteral content s = .ok t s') : Wrote π Γ 1 s s' := by
  obtain ⟨index, s₁, h₁, h⟩ := bind_ok h
  obtain ⟨_, s₂, h₂, h⟩ := bind_ok h
  obtain ⟨_, s₃, h₃, h⟩ := bind_ok h
  obtain ⟨-, rfl⟩ := pure_ok h
  exact .literal .string [UInt32.ofNat index] hs rfl rfl
    ((keeps_intern h₁).trans ((adds_emit h₂).trans (adds_number h₃)))

theorem wrote_booleanLiteral {value : Bool} (hs : π.spans s.offset s'.offset)
    (h : booleanLiteral value s = .ok t s') : Wrote π Γ 1 s s' := by
  obtain ⟨_, s₁, h₁, h⟩ := bind_ok h
  obtain ⟨-, rfl⟩ := pure_ok h
  exact .literal (.boolean value) [] hs rfl rfl (adds_emit h₁)

theorem wrote_integerLiteral {value : Int64} (hs : π.spans s.offset s'.offset)
    (h : integerLiteral value s = .ok t s') : Wrote π Γ 1 s s' := by
  unfold integerLiteral at h
  split at h
  · obtain ⟨_, s₁, h₁, h⟩ := bind_ok h
    obtain ⟨_, s₂, h₂, h⟩ := bind_ok h
    obtain ⟨-, rfl⟩ := pure_ok h
    exact .literal .wideInteger [_, _] hs rfl rfl ((adds_emit h₁).trans (adds_wide h₂))
  · obtain ⟨_, s₁, h₁, h⟩ := bind_ok h
    obtain ⟨_, s₂, h₂, h⟩ := bind_ok h
    obtain ⟨-, rfl⟩ := pure_ok h
    exact .literal .integer [_] hs rfl rfl ((adds_emit h₁).trans (adds_word h₂))

theorem wrote_doubleLiteral {bits : UInt64} (hs : π.spans s.offset s'.offset)
    (h : doubleLiteral bits s = .ok t s') : Wrote π Γ 1 s s' := by
  obtain ⟨_, s₁, h₁, h⟩ := bind_ok h
  obtain ⟨_, s₂, h₂, h⟩ := bind_ok h
  obtain ⟨-, rfl⟩ := pure_ok h
  exact .literal .double [_, _] hs rfl rfl ((adds_emit h₁).trans (adds_wide h₂))

theorem wrote_symbolLiteral {value : Symbol} (hs : π.spans s.offset s'.offset)
    (h : symbolLiteral value s = .ok t s') : Wrote π Γ 1 s s' := by
  obtain ⟨_, s₁, h₁, h⟩ := bind_ok h
  obtain ⟨_, s₂, h₂, h⟩ := bind_ok h
  obtain ⟨-, rfl⟩ := pure_ok h
  exact .literal .symbol [value.code] hs rfl rfl ((adds_emit h₁).trans (adds_word h₂))

theorem wrote_nothingnessLiteral (hs : π.spans s.offset s'.offset)
    (h : nothingnessLiteral s = .ok t s') : Wrote π Γ 1 s s' := by
  obtain ⟨_, s₁, h₁, h⟩ := bind_ok h
  obtain ⟨-, rfl⟩ := pure_ok h
  exact .literal .nothingness [] hs rfl rfl (adds_emit h₁)

/-- An initializer may refer to the instance only if the superclass was initialized before. -/
theorem wrote_selfReference (hs : π.spans s.offset s'.offset)
    (h : selfReference Γ span s = .ok t s') : Wrote π Γ 1 s s' := by
  obtain ⟨_, s₁, h₁, h⟩ := bind_ok h
  obtain ⟨-, rfl⟩ := require_ok h₁
  obtain ⟨f, s₂, h₂, h⟩ := bind_ok h
  cases h₂
  obtain ⟨_, s₃, h₃, h⟩ := bind_ok h
  obtain ⟨hcalled, rfl⟩ := require_ok h₃
  obtain ⟨_, s₄, h₄, h⟩ := bind_ok h
  obtain ⟨rfl, -⟩ := requireComplete_ok h₄
  obtain ⟨_, s₅, h₅, h⟩ := bind_ok h
  obtain ⟨_, s₆, h₆, h⟩ := bind_ok h
  obtain ⟨-, rfl⟩ := pure_ok h
  have hadds := (keeps_useSelf h₅).trans (adds_emit h₆)
  refine .leaf .selfReference [] hs rfl rfl rfl hadds rfl rfl id (.selfReference fun hi ↦ ?_)
  rw [Setting.initializesSuper] at hi
  rw [hi, Bool.true_and, Bool.not_not] at hcalled
  exact hcalled

theorem wrote_emitEnumNumber {hole : Hole} {number : UInt64} {s₁ s₂ : State} {u : Unit}
    (hs : π.spans s.offset s'.offset) (he : s.frame.hasEffect) (h₁ : reserve s = .ok hole s₁)
    (h₂ : Keeps s₁ s₂)
    (h : emitEnumNumber hole number s₂ = .ok u s') : Wrote π Γ 1 s s' := by
  unfold emitEnumNumber at h
  split at h
  · obtain ⟨_, s₃, h₃, h⟩ := bind_ok h
    exact .late .integer [_] hs rfl rfl rfl he h₁ (.of_keeps h₂) h₃ (adds_word h) (.refl _)
  · obtain ⟨_, s₃, h₃, h⟩ := bind_ok h
    exact .late .wideInteger [_, _] hs rfl rfl rfl he h₁ (.of_keeps h₂) h₃ (adds_wide h) (.refl _)

theorem wrote_enumValue (hs : π.spans s.offset s'.offset) (he : s.frame.hasEffect)
    (h : enumValue Γ span s = .ok t s') : Wrote π Γ 1 s s' := by
  obtain ⟨hole, s₁, h₁, h⟩ := bind_ok h
  obtain ⟨⟨a, d⟩, s₂, h₂, h⟩ := bind_ok h
  obtain ⟨_, s₃, h₃, h⟩ := bind_ok h
  obtain ⟨-, rfl⟩ := require_ok h₃
  obtain ⟨_, s₄, h₄, h⟩ := bind_ok h
  obtain ⟨-, rfl⟩ := require_ok h₄
  obtain ⟨⟨value, valueSpan⟩, s₅, h₅, h⟩ := bind_ok h
  obtain ⟨number, s₆, h₆, h⟩ := bind_ok h
  obtain ⟨-, rfl⟩ := demand_ok h₆
  obtain ⟨_, s₇, h₇, h⟩ := bind_ok h
  obtain ⟨-, rfl⟩ := pure_ok h
  exact wrote_emitEnumNumber hs he h₁ ((keeps_annotated h₂).trans (keeps_name h₅)) h₇

theorem wrote_isNothingness (hs : π.spans s.offset s'.offset) (he : s.frame.hasEffect)
    (h : Emitting π rec (fun r ↦ isNothingness Γ r) s t s') : Wrote π Γ 1 s s' := by
  obtain ⟨_, s₁, h₁, h⟩ := h.bind
  obtain ⟨_, s₂, h₂, h⟩ := h.bind
  obtain ⟨-, rfl⟩ := pure_ok h.const
  exact .ordinary .isNothingness [] hs rfl rfl rfl he (adds_emit h₁.const) (wrote_operand h₂)

theorem wrote_identical (hs : π.spans s.offset s'.offset) (he : s.frame.hasEffect)
    (h : Emitting π rec (fun r ↦ identical Γ r) s t s') : Wrote π Γ 1 s s' := by
  obtain ⟨_, s₁, h₁, h⟩ := h.bind
  obtain ⟨_, s₂, h₂, h⟩ := h.bind
  obtain ⟨_, s₃, h₃, h⟩ := h.bind
  obtain ⟨-, rfl⟩ := pure_ok h.const
  exact .ordinary .identical [] hs rfl rfl rfl he (adds_emit h₁.const)
    ((wrote_operandFitting h₂).trans (wrote_operandFitting h₃))

/-! ## Strings and collections -/

/-- Parts follow up to a mark, each with so many operands, and what is carried along is changed by
the type of each. -/
theorem wrote_partsUntil {σ : Type} {mark : Construct} {part : Recursion → Token → Analysis Ty}
    {g : σ → Ty → σ} {v b : σ} {width : Nat}
    (hpart : ∀ token s t s', Emitting π rec (fun r ↦ part r token) s t s' →
      Wrote π Γ width s s')
    (h : Emitting π rec (fun r ↦ repeatUntil (fun v ↦ do
      let token ← next
      if token.asksFor mark then
        return .inr v
      return .inl (g v (← part r token))) v) s b s') :
    ∃ ts : List Ty, b = ts.foldl g v ∧ Wrote π Γ (width * ts.length) s s' := by
  refine h.repeatUntil (Q := fun v s b s' ↦ ∃ ts : List Ty, b = ts.foldl g v
      ∧ Wrote π Γ (width * ts.length) s s')
    (fun v s b s' h ↦ ?_) fun v s v' s₁ b s' h ⟨ts, hb, ih⟩ ↦ ?_
  · obtain ⟨token, s₁, h₁, h⟩ := h.bind
    rcases h.ite with ⟨-, h⟩ | ⟨-, h⟩
    · cases h.run
      exact ⟨[], rfl, .of_keeps (keeps_next h₁.const)⟩
    · obtain ⟨_, s₂, h₂, h⟩ := h.bind
      cases h.run
  · obtain ⟨token, s₂, h₁, h⟩ := h.bind
    rcases h.ite with ⟨-, h⟩ | ⟨-, h⟩
    · cases h.run
    · obtain ⟨t, s₃, h₂, h⟩ := h.bind
      cases h.run
      refine ⟨t :: ts, hb, ?_⟩
      rw [List.length_cons, Nat.mul_succ, Nat.add_comm]
      exact ((hpart token _ _ _ h₂).behind (keeps_next h₁.const)).trans ih

/-- The strings behind the first one are counted from it. -/
theorem wrote_strings {strings : Nat} (h : Emitting π rec (fun r ↦ repeatUntil (fun strings ↦ do
      let token ← next
      if token.asksFor .concatenate then
        return .inr strings
      let _ ← fitting Γ r token .string
      return .inl (strings + 1)) 1) s strings s') :
    ∃ n, strings = 1 + n ∧ Wrote π Γ n s s' := by
  obtain ⟨ts, hstrings, hwrote⟩ := wrote_partsUntil (g := fun strings _ ↦ strings + 1)
    (fun _ _ _ _ h ↦ wrote_fitting h) h
  have hcount (ts : List Ty) (k : Nat) :
      ts.foldl (fun strings _ ↦ strings + 1) k = k + ts.length := by
    induction ts generalizing k with
    | nil => rfl
    | cons t ts ih => rw [List.foldl_cons, ih, List.length_cons, Nat.add_right_comm, Nat.add_assoc]
  rw [Nat.one_mul] at hwrote
  exact ⟨ts.length, hstrings.trans (hcount ts 1), hwrote⟩

theorem wrote_concatenate (hs : π.spans s.offset s'.offset) (he : s.frame.hasEffect)
    (h : Emitting π rec (fun r ↦ concatenate Γ r) s t s') : Wrote π Γ 1 s s' := by
  obtain ⟨_, s₁, h₁, h⟩ := h.bind
  obtain ⟨hole, s₂, h₂, h⟩ := h.bind
  obtain ⟨_, s₃, h₃, h⟩ := h.bind
  obtain ⟨strings, s₄, h₄, h⟩ := h.bind
  obtain ⟨_, s₅, h₅, h⟩ := h.bind
  obtain ⟨-, rfl⟩ := pure_ok h.const
  obtain ⟨n, rfl, hrest⟩ := wrote_strings h₄
  exact .numbered .concatenate hs rfl rfl rfl he (adds_emit h₁.const) h₂.const
    ((wrote_operandFitting h₃).trans hrest) h₅.const

theorem keeps_emptyElement {id : TypeId} {hint : Option Ty}
    (h : emptyElement id hint span s = .ok t s') : Keeps s s' := by
  unfold emptyElement at h
  generalize (hint.filter (·.objectId? == some id)).bind (·.arguments.head?) = element? at h
  cases element? with
  | some element =>
    obtain ⟨-, rfl⟩ := pure_ok h
    exact .refl _
  | none =>
    obtain ⟨_, s₁, h₁, h⟩ := bind_ok h
    obtain ⟨-, rfl⟩ := pure_ok h
    exact keeps_warn h₁

theorem wrote_collection (op : Opcode) {id : TypeId} {part : Recursion → Token → Analysis Ty}
    {hint : Option Ty} {count : OperandCount} {width : Nat} (hs : π.spans s.offset s'.offset)
    (he : s.frame.hasEffect) (hop : op.isOrdinary)
    (hl : op.layout? = some { counted := .operands, operands := count })
    (ha : ∀ n, count.Admits (π.callee s.offset) [] (width * n))
    (hpart : ∀ token s t s', Emitting π rec (fun r ↦ part r token) s t s' →
      Wrote π Γ width s s')
    (h : Emitting π rec (fun r ↦ collection Γ op id (part r) hint span) s t s') :
    Wrote π Γ 1 s s' := by
  obtain ⟨_, s₁, h₁, h⟩ := h.bind
  obtain ⟨hole, s₂, h₂, h⟩ := h.bind
  obtain ⟨common?, s₃, h₃, h⟩ := h.bind
  obtain ⟨_, s₄, h₄, h⟩ := h.bind
  have hk : Keeps s₄ s' := by
    cases common? with
    | some element =>
      obtain ⟨_, s₅, h₅, h⟩ := h.bind
      cases h₅.const
      obtain ⟨-, rfl⟩ := pure_ok h.const
      exact .refl _
    | none =>
      obtain ⟨_, s₅, h₅, h⟩ := h.bind
      obtain ⟨-, rfl⟩ := pure_ok h.const
      exact keeps_emptyElement h₅.const
  rw [hk.offset] at hs
  obtain ⟨ts, -, hparts⟩ := wrote_partsUntil hpart h₃
  exact (Wrote.collected op hs hop hl (ha ts.length) he (adds_emit h₁.const) h₂.const hparts
    h₄.const).before hk

theorem wrote_list {hint : Option Ty} (hs : π.spans s.offset s'.offset)
    (he : s.frame.hasEffect) (h : Emitting π rec (fun r ↦ list Γ r hint span) s t s') :
    Wrote π Γ 1 s s' :=
  wrote_collection .list hs he rfl rfl (fun _ ↦ trivial) (fun _ _ _ _ h ↦ h.call) h

/-- A dictionary has a key and a value for each part. -/
theorem wrote_dictionary {hint : Option Ty} (hs : π.spans s.offset s'.offset)
    (he : s.frame.hasEffect) (h : Emitting π rec (fun r ↦ dictionary Γ r hint span) s t s') :
    Wrote π Γ 1 s s' := by
  refine wrote_collection .dictionary hs he rfl rfl (fun n ↦ ⟨n, rfl⟩) (fun token s t s' h ↦ ?_) h
  obtain ⟨_, s₁, h₁, h⟩ := h.bind
  exact (wrote_fitting h₁).trans (wrote_operand h)

/-! ## Conversions -/

theorem wrote_cast (hs : π.spans s.offset s'.offset) (he : s.frame.hasEffect)
    (h : Emitting π rec (fun r ↦ cast Γ r span) s t s') : Wrote π Γ 1 s s' := by
  obtain ⟨hole, s₁, h₁, h⟩ := h.bind
  obtain ⟨found, s₂, h₂, h⟩ := h.bind
  obtain ⟨⟨target, d⟩, s₃, h₃, h⟩ := h.bind
  obtain ⟨s₄, hwarn, h⟩ := h.optional
  have hvalue := (wrote_operandFitting h₂).before
    ((keeps_annotated h₃.const).trans (keeps_optional_warn hwarn))
  replace h := h.const
  generalize target.kind = kind at h
  cases kind with
  | object id =>
    obtain ⟨c, s₅, h₅, h⟩ := bind_ok h
    obtain ⟨-, rfl⟩ := demand_ok h₅
    obtain ⟨_, s₆, h₆, h⟩ := bind_ok h
    obtain ⟨-, rfl⟩ := require_ok h₆
    obtain ⟨_, s₇, h₇, h⟩ := bind_ok h
    obtain ⟨_, s₈, h₈, h⟩ := bind_ok h
    obtain ⟨-, rfl⟩ := pure_ok h
    exact .late (.cast _) [UInt32.ofNat c.index] hs rfl rfl (by rfl) he h₁.const hvalue h₇
      (adds_number h₈) (.refl _)
  | protocol id =>
    obtain ⟨p, s₅, h₅, h⟩ := bind_ok h
    obtain ⟨-, rfl⟩ := demand_ok h₅
    obtain ⟨_, s₆, h₆, h⟩ := bind_ok h
    obtain ⟨_, s₇, h₇, h⟩ := bind_ok h
    obtain ⟨-, rfl⟩ := pure_ok h
    exact .late (.cast _) [UInt32.ofNat p.index] hs rfl rfl (by rfl) he h₁.const hvalue h₆
      (adds_number h₇) (.refl _)
  | boolean | integer | symbol | double =>
    obtain ⟨_, s₅, h₅, h⟩ := bind_ok h
    obtain ⟨-, rfl⟩ := pure_ok h
    exact .lateFirst (.cast _) hs rfl rfl (by rfl) he h₁.const hvalue h₅ (.refl _)
  | _ =>
    obtain ⟨_, s₅, h₅, h⟩ := bind_ok h
    cases h₅

theorem wrote_unwrap (hs : π.spans s.offset s'.offset) (he : s.frame.hasEffect)
    (h : Emitting π rec (fun r ↦ unwrap Γ r span) s t s') : Wrote π Γ 1 s s' := by
  obtain ⟨_, s₁, h₁, h⟩ := h.bind
  obtain ⟨found, s₂, h₂, h⟩ := h.bind
  obtain ⟨_, s₃, h₃, h⟩ := h.bind
  obtain ⟨-, rfl⟩ := require_ok h₃.const
  obtain ⟨-, rfl⟩ := pure_ok h.const
  exact .ordinary .unwrap [] hs rfl rfl rfl he (adds_emit h₁.const) (wrote_operand h₂)

/-! ## Calls -/

/-- An operator on numbers takes two operands, as do those on truth values, but for negation. -/
theorem operandCount_of_find? {receiver : Ty} {symbol : Symbol} {operation : Operation}
    (h : Operation.find? receiver symbol = some operation) :
    operation.operator.operandCount = 1 + operation.operand?.toList.length := by
  unfold Operation.find? at h
  split at h
  · unfold Operation.onBooleans? at h
    split at h
    · cases h
      rfl
    · obtain ⟨operator, ho, rfl⟩ := Option.map_eq_some_iff.mp h
      simp only [List.lookup_cons, List.lookup_nil] at ho
      split at ho
      · cases ho
        rfl
      · split at ho
        · cases ho
          rfl
        · split at ho <;> cases ho
          rfl
  · unfold Operation.onIntegers? at h
    split at h
    · cases h
      rfl
    · split at h
      · cases h
        rfl
      · obtain ⟨operator, -, rfl⟩ := Option.map_eq_some_iff.mp h
        rfl
  · unfold Operation.onDoubles? at h
    split at h
    · cases h
      rfl
    · obtain ⟨operator, -, rfl⟩ := Option.map_eq_some_iff.mp h
      rfl
  · split at h <;> cases h
    rfl

/-- The second operand of an operator, if it takes one. -/
theorem wrote_secondOperand {operation : Operation}
    (h : Emitting π rec (fun r ↦ do
      if let some operand := operation.operand? then
        let _ ← operandFitting Γ r operand
      return operation.result) s t s') : Wrote π Γ operation.operand?.toList.length s s' := by
  generalize operation.operand? = operand? at h ⊢
  cases operand? with
  | some operand =>
    obtain ⟨_, s₁, h₁, h⟩ := h.bind
    obtain ⟨-, rfl⟩ := pure_ok h.const
    exact wrote_operandFitting h₁
  | none =>
    obtain ⟨-, rfl⟩ := pure_ok h.const
    exact .refl _

theorem wrote_captureMethod (hs : π.spans s.offset s'.offset) (he : s.frame.hasEffect)
    (h : Emitting π rec (fun r ↦ captureMethod Γ r) s t s') : Wrote π Γ 1 s s' := by
  obtain ⟨⟨method, methodSpan⟩, s₁, h₁, h⟩ := h.bind
  obtain ⟨_, s₂, h₂, h⟩ := h.bind
  obtain ⟨⟨receiver, receiverSpan⟩, s₃, h₃, h⟩ := h.bind
  obtain ⟨_, s₄, h₄, h⟩ := h.bind
  obtain ⟨-, rfl⟩ := require_ok h₄.const
  obtain ⟨m, s₅, h₅, h⟩ := h.bind
  obtain ⟨-, rfl⟩ := demand_ok h₅.const
  obtain ⟨_, s₆, h₆, h⟩ := h.bind
  obtain ⟨_, s₇, h₇, h⟩ := h.bind
  obtain ⟨-, rfl⟩ := require_ok h₇.const
  obtain ⟨-, rfl⟩ := pure_ok h.const
  have hemit := (keeps_name h₁.const).trans (adds_emit h₂.const)
  have hslot := adds_number h₆.const
  obtain ⟨r, hr⟩ := (wrote_operandAndSpan h₃).operands (hemit.effect he)
  obtain ⟨o, ho⟩ := (Wrote.refl s₆).operands (hslot.effect hr.effect)
  refine .applied .captureMethod .nothing [UInt32.ofNat m.slot] hs rfl rfl rfl hemit.context
    hemit.offset hr hslot.context ho ?_ (hslot.holes.trans (hr.holes.trans hemit.holes))
  rw [hslot.listing, hr.listing, hemit.listing, List.append_assoc, List.append_assoc]
  rfl

theorem hasSuperclass_of_superclass? {parent : Class} (h : Γ.superclass? = some parent) :
    Γ.hasSuperclass := by
  obtain ⟨id, hid, -⟩ := Option.bind_eq_some_iff.mp h
  obtain ⟨c, hc, hid⟩ := Option.bind_eq_some_iff.mp hid
  rw [Setting.hasSuperclass, hc, Option.any_some, hid]
  rfl

section

variable (hs : π.spans s.offset s'.offset) (he : s.frame.hasEffect)

include hs he

theorem wrote_call {method : Symbol}
    (hcallee : ∀ n, Refers Γ (lookupOfCall Γ rec method) s n → π.callee s.offset n)
    (h : Emitting π rec (fun r ↦ call Γ r method span) s t s') : Wrote π Γ 1 s s' := by
  obtain ⟨hole, s₁, h₁, h⟩ := h.bind
  obtain ⟨⟨receiver, receiverSpan⟩, s₂, h₂, h⟩ := h.bind
  obtain ⟨_, s₃, h₃, h⟩ := h.bind
  obtain ⟨-, rfl⟩ := require_ok h₃.const
  have hvalue := wrote_operandAndSpan h₂
  have hlookup : lookupOfCall Γ rec method s = _ :=
    (bind_of_ok h₁.run).trans (bind_of_ok h₂.run)
  dsimp only at h hlookup
  generalize (dispatchType Γ receiver).kind = kind at h hlookup
  cases kind with
  | protocol id =>
    obtain ⟨p, s₄, h₄, h⟩ := h.bind
    obtain ⟨-, rfl⟩ := demand_ok h₄.const
    obtain ⟨m, s₅, h₅, h⟩ := h.bind
    obtain ⟨hm, rfl⟩ := demand_ok h₅.const
    obtain ⟨_, s₆, h₆, h⟩ := h.bind
    obtain ⟨_, s₇, h₇, h⟩ := h.bind
    obtain ⟨_, s₈, h₈, h⟩ := h.bind
    exact .late .protocolMethodCall [UInt32.ofNat p.index, UInt32.ofNat m.slot] hs rfl rfl
      (hcallee _ ⟨_, s₂, m, hlookup, hm, rfl⟩) he h₁.const hvalue h₆.const
      ((adds_number h₇.const).trans (adds_number h₈.const)) (wrote_callMember h)
  | object id =>
    obtain ⟨m, s₄, h₄, h⟩ := h.bind
    obtain ⟨hm, rfl⟩ := demand_ok h₄.const
    obtain ⟨_, s₅, h₅, h⟩ := h.bind
    obtain ⟨_, s₆, h₆, h⟩ := h.bind
    exact .late .methodCall [UInt32.ofNat m.slot] hs rfl rfl
      (hcallee _ ⟨_, s₂, m, hlookup, hm, rfl⟩) he h₁.const hvalue h₅.const (adds_number h₆.const)
      (wrote_callMember h)
  | _ =>
    obtain ⟨operation, s₄, h₄, h⟩ := h.bind
    obtain ⟨hoperation, rfl⟩ := demand_ok h₄.const
    obtain ⟨_, s₅, h₅, h⟩ := h.bind
    exact .lateFirst (.operator operation.operator) hs rfl rfl
      (operandCount_of_find? hoperation).symm he h₁.const hvalue h₅.const (wrote_secondOperand h)

theorem wrote_optionalChain
    (hcallee : ∀ n, Refers Γ (some <$> lookupOfOptionalChain Γ rec) s n → π.callee s.offset n)
    (h : Emitting π rec (fun r ↦ optionalChain Γ r span) s t s') : Wrote π Γ 1 s s' := by
  obtain ⟨_, s₁, h₁, h⟩ := h.bind
  obtain ⟨hole, s₂, h₂, h⟩ := h.bind
  obtain ⟨⟨method, methodSpan⟩, s₃, h₃, h⟩ := h.bind
  obtain ⟨found, s₄, h₄, h⟩ := h.bind
  obtain ⟨_, s₅, h₅, h⟩ := h.bind
  obtain ⟨-, rfl⟩ := require_ok h₅.const
  obtain ⟨m, s₆, h₆, h⟩ := h.bind
  obtain ⟨hm, rfl⟩ := demand_ok h₆.const
  obtain ⟨_, s₇, h₇, h⟩ := h.bind
  obtain ⟨_, s₈, h₈, h⟩ := h.bind
  obtain ⟨_, s₉, h₉, h⟩ := h.bind
  obtain ⟨-, rfl⟩ := pure_ok h.const
  have hrefers : Refers Γ (some <$> lookupOfOptionalChain Γ rec) s m.arguments.length :=
    .single ((bind_of_ok h₁.run).trans ((bind_of_ok h₂.run).trans
      ((bind_of_ok h₃.run).trans ((bind_of_ok h₄.run).trans rfl)))) (method?_of_objectMethod? hm)
  have hemit := adds_emit h₁.const
  have hname := keeps_name h₃.const
  have hslot := adds_number h₇.const
  obtain ⟨hi, hhole, hc, he₂⟩ := inside_reserveCount h₂.const
  obtain ⟨r, hr⟩ := (wrote_operand h₄).operands (hname.effect (he₂ (hemit.effect he)))
  have hi' := ((hi.adds hname.listing hname.holes).adds hr.listing hr.holes).adds hslot.listing
    hslot.holes
  have hf := filled_fillCount hi' hhole h₈.const
  -- the word count behind the opcode takes in the receiver and the slot of the method
  have hsize : ((([] ++ []) ++ Outline.entries r) ++ [immediateNumber m.slot]).length
      = r.size + 1 := by
    rw [List.length_append]
    rfl
  rw [hsize] at hf
  obtain ⟨o, ho⟩ := (wrote_callMember h₉).operands (hf.effect (hslot.effect hr.effect))
  refine .applied .optionalChain .receiver [UInt32.ofNat m.slot] hs rfl rfl (hcallee _ hrefers)
    (hname.context.trans (hc.trans hemit.context)) ?_ hr (hf.context.trans hslot.context) ho ?_
    (hf.holes.trans hemit.holes)
  · rw [hname.offset, hi.offset, hemit.offset]
    rfl
  · rw [hf.listing, hemit.listing, List.append_assoc]
    rfl

theorem wrote_callClassMethod
    (hcallee : ∀ n, Refers Γ (some <$> lookupOfClassMethod Γ) s n → π.callee s.offset n)
    (h : Emitting π rec (fun r ↦ callClassMethod Γ r) s t s') : Wrote π Γ 1 s s' := by
  obtain ⟨_, s₁, h₁, h⟩ := h.bind
  obtain ⟨⟨method, methodSpan⟩, s₂, h₂, h⟩ := h.bind
  obtain ⟨⟨annotated, dynamic⟩, s₃, h₃, h⟩ := h.bind
  obtain ⟨s₄, hwarn, h⟩ := h.optional
  obtain ⟨c, s₅, h₅, h⟩ := h.bind
  obtain ⟨-, rfl⟩ := demand_ok h₅.const
  obtain ⟨_, s₆, h₆, h⟩ := h.bind
  obtain ⟨m, s₇, h₇, h⟩ := h.bind
  obtain ⟨hm, rfl⟩ := demand_ok h₇.const
  obtain ⟨_, s₈, h₈, h⟩ := h.bind
  have hrefers : Refers Γ (some <$> lookupOfClassMethod Γ) s m.arguments.length :=
    .single ((bind_of_ok h₁.run).trans ((bind_of_ok h₂.run).trans
      ((bind_of_ok h₃.run).trans rfl))) hm
  have hhead := (adds_emit h₁.const).trans ((keeps_name h₂.const).trans
    ((keeps_annotated h₃.const).trans ((keeps_optional_warn hwarn).trans
      ((adds_word h₆.const).trans (adds_number h₈.const)))))
  exact .ordinary .classMethodCall [_, UInt32.ofNat m.slot] hs rfl rfl (hcallee _ hrefers) he hhead
    (wrote_callMember h)

theorem wrote_callSuperMethod
    (hcallee : ∀ n, Refers Γ (some <$> lookupOfSuperMethod Γ span) s n → π.callee s.offset n)
    (h : Emitting π rec (fun r ↦ callSuperMethod Γ r span) s t s') : Wrote π Γ 1 s s' := by
  obtain ⟨⟨method, methodSpan⟩, s₁, h₁, h⟩ := h.bind
  obtain ⟨_, s₂, h₂, h⟩ := h.bind
  obtain ⟨-, rfl⟩ := require_ok h₂.const
  obtain ⟨parent, s₃, h₃, h⟩ := h.bind
  have hparent := h₃.run
  obtain ⟨-, rfl⟩ := demand_ok h₃.const
  obtain ⟨_, s₄, h₄, h⟩ := h.bind
  obtain ⟨_, s₅, h₅, h⟩ := h.bind
  obtain ⟨m, s₆, h₆, h⟩ := h.bind
  obtain ⟨hm, rfl⟩ := demand_ok h₆.const
  have hrefers : Refers Γ (some <$> lookupOfSuperMethod Γ span) s m.arguments.length :=
    .single ((bind_of_ok h₁.run).trans ((bind_of_ok hparent).trans rfl)) hm
  obtain ⟨_, s₇, h₇, h⟩ := h.bind
  obtain ⟨_, s₈, h₈, h⟩ := h.bind
  have hhead := (keeps_name h₁.const).trans ((adds_emit h₄.const).trans
    ((adds_number h₅.const).trans ((adds_number h₇.const).trans (keeps_useSelf h₈.const))))
  exact .ordinary .superMethodCall [UInt32.ofNat parent.index, UInt32.ofNat m.slot] hs rfl rfl
    (hcallee _ hrefers) he hhead (wrote_callMember h)

theorem wrote_invoke
    (hcallee : ∀ callee s₁, calleeOfInvocation Γ rec s = .ok callee s₁ →
      π.callee s.offset callee.callArguments.length)
    (h : Emitting π rec (fun r ↦ invoke Γ r) s t s') : Wrote π Γ 1 s s' := by
  obtain ⟨_, s₁, h₁, h⟩ := h.bind
  obtain ⟨⟨callee, calleeSpan⟩, s₂, h₂, h⟩ := h.bind
  obtain ⟨_, s₃, h₃, h⟩ := h.bind
  obtain ⟨-, rfl⟩ := require_ok h₃.const
  obtain ⟨_, s₄, h₄, h⟩ := h.bind
  obtain ⟨-, rfl⟩ := pure_ok h.const
  have hcalled := hcallee callee s₂ ((bind_of_ok h₁.run).trans ((bind_of_ok h₂.run).trans rfl))
  exact .ordinary .invoke [] hs rfl rfl ⟨_, hcalled, Nat.add_comm 1 _⟩ he (adds_emit h₁.const)
    ((wrote_operandAndSpan h₂).trans (wrote_arguments h₄))

/-! ## Instances -/

theorem wrote_instantiate
    (hcallee : ∀ n, Refers Γ (some <$> lookupOfInstantiation Γ span) s n → π.callee s.offset n)
    (h : Emitting π rec (fun r ↦ instantiate Γ r span) s t s') : Wrote π Γ 1 s s' := by
  obtain ⟨_, s₁, h₁, h⟩ := h.bind
  obtain ⟨⟨annotated, dynamic⟩, s₂, h₂, h⟩ := h.bind
  obtain ⟨c, s₃, h₃, h⟩ := h.bind
  have hclass := h₃.run
  obtain ⟨-, rfl⟩ := demand_ok h₃.const
  obtain ⟨_, s₄, h₄, h⟩ := h.bind
  obtain ⟨-, rfl⟩ := require_ok h₄.const
  obtain ⟨_, s₅, h₅, h⟩ := h.bind
  obtain ⟨⟨initializer, initializerSpan⟩, s₆, h₆, h⟩ := h.bind
  obtain ⟨m, s₇, h₇, h⟩ := h.bind
  obtain ⟨hm, rfl⟩ := demand_ok h₇.const
  have hrefers : Refers Γ (some <$> lookupOfInstantiation Γ span) s m.arguments.length :=
    .single ((bind_of_ok h₁.run).trans ((bind_of_ok h₂.run).trans ((bind_of_ok hclass).trans
      ((bind_of_ok h₅.run).trans ((bind_of_ok h₆.run).trans rfl))))) hm
  obtain ⟨_, s₈, h₈, h⟩ := h.bind
  obtain ⟨-, rfl⟩ := require_ok h₈.const
  obtain ⟨_, s₉, h₉, h⟩ := h.bind
  obtain ⟨_, s₁₀, h₁₀, h⟩ := h.bind
  obtain ⟨-, rfl⟩ := require_ok h₁₀.const
  obtain ⟨_, s₁₁, h₁₁, h⟩ := h.bind
  obtain ⟨-, rfl⟩ := pure_ok h.const
  have hhead := (adds_emit h₁.const).trans ((keeps_annotated h₂.const).trans
    ((adds_word h₅.const).trans ((keeps_name h₆.const).trans (adds_number h₉.const))))
  have hw := wrote_arguments h₁₁
  rw [argumentTypes, List.length_map] at hw
  exact .ordinary .instantiate [_, UInt32.ofNat m.slot] hs rfl rfl (hcallee _ hrefers) he hhead hw

/-- The superclass counts as initialized behind the arguments of its initializer. -/
theorem wrote_superInitializer
    (hcallee : ∀ n, Refers Γ (some <$> lookupOfSuperInitializer Γ span) s n → π.callee s.offset n)
    (h : Emitting π rec (fun r ↦ superInitializer Γ r span) s t s') : Wrote π Γ 1 s s' := by
  obtain ⟨_, s₁, h₁, h⟩ := h.bind
  obtain ⟨hini, rfl⟩ := require_ok h₁.const
  obtain ⟨parent, s₂, h₂, h⟩ := h.bind
  have hfound := h₂.run
  obtain ⟨hparent, rfl⟩ := demand_ok h₂.const
  obtain ⟨f, s₃, h₃, h⟩ := h.bind
  cases h₃.const
  obtain ⟨_, s₄, h₄, h⟩ := h.bind
  obtain ⟨hcalled, rfl⟩ := require_ok h₄.const
  obtain ⟨f, s₅, h₅, h⟩ := h.bind
  cases h₅.const
  obtain ⟨_, s₆, h₆, h⟩ := h.bind
  obtain ⟨hdepth, rfl⟩ := require_ok h₆.const
  obtain ⟨_, s₇, h₇, h⟩ := h.bind
  obtain ⟨rfl, -⟩ := requireComplete_ok h₇.const
  obtain ⟨_, s₈, h₈, h⟩ := h.bind
  obtain ⟨_, s₉, h₉, h⟩ := h.bind
  obtain ⟨⟨initializer, initializerSpan⟩, s₁₀, h₁₀, h⟩ := h.bind
  obtain ⟨m, s₁₁, h₁₁, h⟩ := h.bind
  obtain ⟨hm, rfl⟩ := demand_ok h₁₁.const
  have hrefers : Refers Γ (some <$> lookupOfSuperInitializer Γ span) s m.arguments.length :=
    .single ((bind_of_ok hfound).trans ((bind_of_ok h₈.run).trans ((bind_of_ok h₉.run).trans
      ((bind_of_ok h₁₀.run).trans rfl)))) hm
  obtain ⟨_, s₁₂, h₁₂, h⟩ := h.bind
  obtain ⟨_, s₁₃, h₁₃, h⟩ := h.bind
  obtain ⟨-, rfl⟩ := require_ok h₁₃.const
  obtain ⟨_, s₁₄, h₁₄, h⟩ := h.bind
  obtain ⟨_, s₁₅, h₁₅, h⟩ := h.bind
  obtain ⟨-, rfl⟩ := pure_ok h.const
  cases h₁₅.const
  -- the flag is raised behind the arguments, so they are emitted as if nothing was called yet
  have hhead := (adds_emit h₈.const).trans ((adds_number h₉.const).trans
    ((keeps_name h₁₀.const).trans (adds_number h₁₂.const)))
  have hw := wrote_arguments h₁₄
  rw [argumentTypes, List.length_map] at hw
  obtain ⟨o, ho⟩ := hw.operands (hhead.effect he)
  refine .plain .superInitializer [UInt32.ofNat parent.index, UInt32.ofNat m.slot] hs rfl rfl
    (hcallee _ hrefers) (Written.plain _ _ hhead.listing hhead.holes ho rfl rfl fun hem ↦
      .superInitializer ?_ ?_ (eq_of_beq hdepth) (hhead.context ▸ hem)) fun _ ↦ ⟨rfl, ho.effect⟩
  · rw [Setting.initializesSuper, hini, hasSuperclass_of_superclass? hparent]
    rfl
  · rw [Bool.not_eq_true'] at hcalled
    exact hcalled

end

/-! ## Returns -/

/-- A return is the first thing that has an effect, so it is emitted where no operand is
expected. -/
theorem wrote_returning {expected : Ty} {s₁ s₂ s₃ : State} {u : Unit}
    (hs : π.spans s.offset s'.offset) (hfirst : s.frame.hasEffect = false) (hk : Keeps s s₁)
    (he : s₁.frame.hasEffect) (hΓ : Γ.initializer? = none → Γ.result.isNothingness = false)
    (h₁ : emit .returning s₁ = .ok u s₂)
    (h₂ : Emitting π rec (fun r ↦ operandFitting Γ r expected) s₂ t s₃)
    (hl : s'.listing = s₃.listing) (hh : s'.holes = s₃.holes)
    (hc : s'.context = { s₃.context with
      hasReturned := s₃.context.hasReturned || Γ.initializer?.isNone }) : Wrote π Γ 1 s s' := by
  have hemit := adds_emit h₁
  obtain ⟨o, ho⟩ := (wrote_operandFitting h₂).operands (hemit.effect he)
  have hhead := hk.trans hemit
  refine .plain .returning [] hs rfl rfl rfl
    (Written.plain _ _ hhead.listing hhead.holes ho hl hh fun hem ↦ ?_) fun he ↦ ?_
  · rw [hc]
    exact .returning hΓ (hhead.context ▸ hem)
  · cases hfirst.symm.trans he

theorem wrote_returnValue (hs : π.spans s.offset s'.offset)
    (h : Emitting π rec (fun r ↦ returnValue Γ r span) s t s') : Wrote π Γ 1 s s' := by
  obtain ⟨f, s₁, h₁, h⟩ := h.bind
  cases h₁.const
  obtain ⟨_, s₂, h₂, h⟩ := h.bind
  obtain ⟨hfirst, rfl⟩ := require_ok h₂.const
  rw [Bool.not_eq_true'] at hfirst
  obtain ⟨_, s₃, h₃, h⟩ := h.bind
  obtain ⟨hk, he⟩ : Keeps s s₃ ∧ s₃.frame.hasEffect := by
    cases h₃.const
    exact ⟨.keeps rfl rfl rfl fun _ ↦ rfl, rfl⟩
  dsimp only at h
  generalize hΓ : Γ.initializer? = initializer? at h
  cases initializer? with
  | some initializer =>
    obtain ⟨_, s₄, h₄, h⟩ := h.bind
    obtain ⟨-, rfl⟩ := require_ok h₄.const
    obtain ⟨_, s₅, h₅, h⟩ := h.bind
    obtain ⟨_, s₆, h₆, h⟩ := h.bind
    obtain ⟨-, rfl⟩ := pure_ok h.const
    refine wrote_returning hs hfirst hk he (fun hn ↦ nomatch hΓ.symm.trans hn) h₅.const h₆ rfl rfl
      ?_
    rw [hΓ, Option.isNone_some, Bool.or_false]
  | none =>
    obtain ⟨_, s₄, h₄, h⟩ := h.bind
    obtain ⟨hresult, rfl⟩ := require_ok h₄.const
    rw [Bool.not_eq_true'] at hresult
    obtain ⟨_, s₅, h₅, h⟩ := h.bind
    obtain ⟨_, s₆, h₆, h⟩ := h.bind
    obtain ⟨_, s₇, h₇, h⟩ := h.bind
    obtain ⟨-, rfl⟩ := pure_ok h.const
    cases h₇.const
    refine wrote_returning hs hfirst hk he (fun _ ↦ hresult) h₅.const h₆ rfl rfl ?_
    rw [hΓ, Option.isNone_none, Bool.or_true]
    rfl

end Pictograph.Analysis
