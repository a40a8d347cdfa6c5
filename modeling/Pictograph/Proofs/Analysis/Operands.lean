import Pictograph.Proofs.Analysis.Writing

/-!
# Operands, arguments and statements

What the analysis does around the expressions inside a construct emits what these expressions emit,
one behind the other.
-/

namespace Pictograph

/-- A run of an analysis, given that all expressions inside it emit an outline. -/
abbrev Emitting (π : Notes) {α : Type} (rec : Recursion) (m : Recursion → Analysis α) (s : State)
    (a : α) (s' : State) : Prop :=
  Yields rec (fun q t ↦ Wrote π q.setting 1 q.state t) m s a s'

namespace Analysis

variable {π : Notes} {Γ : Setting} {rec : Recursion} {s s' : State} {t : Ty}
  {u : Unit}

/-- A repetition emits something if each step does. -/
theorem wrote_repeatUntil {σ β : Type} {step : Recursion → σ → Analysis (σ ⊕ β)} {v : σ} {b : β}
    (hstep : ∀ v s x s', Emitting π rec (fun r ↦ step r v) s x s' → WroteSome π Γ s s')
    (h : Emitting π rec (fun r ↦ repeatUntil (step r) v) s b s') : WroteSome π Γ s s' :=
  h.repeatUntil (Q := fun _ s _ s' ↦ WroteSome π Γ s s') (fun _ _ _ _ h ↦ hstep _ _ _ _ h)
    fun _ _ _ _ _ _ h ih ↦ (hstep _ _ _ _ h).trans ih

/-! ## Operands and arguments -/

theorem wrote_operand (h : Emitting π rec (fun r ↦ operand Γ r) s t s') : Wrote π Γ 1 s s' := by
  obtain ⟨token, s₁, h₁, h⟩ := h.bind
  exact h.call.behind (keeps_next h₁.const)

theorem wrote_operandAndSpan {x : Ty × Span}
    (h : Emitting π rec (fun r ↦ operandAndSpan Γ r) s x s') : Wrote π Γ 1 s s' := by
  obtain ⟨token, s₁, h₁, h⟩ := h.bind
  obtain ⟨t, s₂, h₂, h⟩ := h.bind
  obtain ⟨-, rfl⟩ := pure_ok h.const
  exact h₂.call.behind (keeps_next h₁.const)

theorem wrote_fitting {token : Token} {expected : Ty}
    (h : Emitting π rec (fun r ↦ fitting Γ r token expected) s t s') : Wrote π Γ 1 s s' := by
  obtain ⟨found, s₁, h₁, h⟩ := h.bind
  obtain ⟨_, s₂, h₂, h⟩ := h.bind
  obtain ⟨-, rfl⟩ := require_ok h₂.const
  obtain ⟨-, rfl⟩ := pure_ok h.const
  exact h₁.call

theorem wrote_operandFitting {expected : Ty}
    (h : Emitting π rec (fun r ↦ operandFitting Γ r expected) s t s') : Wrote π Γ 1 s s' := by
  obtain ⟨token, s₁, h₁, h⟩ := h.bind
  exact (wrote_fitting h).behind (keeps_next h₁.const)

theorem wrote_operandsFitting {ts : List Ty}
    (h : Emitting π rec (fun r ↦ operandsFitting Γ r ts) s u s') :
    Wrote π Γ ts.length s s' := by
  induction ts generalizing s with
  | nil =>
    obtain ⟨-, rfl⟩ := pure_ok h.const
    exact .refl s
  | cons t ts ih =>
    obtain ⟨_, s₁, h₁, h⟩ := h.bind
    rw [List.length_cons, Nat.add_comm]
    exact (wrote_operandFitting h₁).trans (ih h)

theorem wrote_arguments {ts : List Ty} (h : Emitting π rec (fun r ↦ arguments Γ r ts) s u s') :
    Wrote π Γ ts.length s s' := by
  obtain ⟨bracketed, s₁, h₁, h⟩ := h.bind
  obtain ⟨_, s₂, h₂, h⟩ := h.bind
  refine ((wrote_operandsFitting h₂).behind (keeps_reading h₁.const)).before ?_
  rcases h.ite with ⟨-, h⟩ | ⟨-, h⟩
  · obtain ⟨_, s₃, h₃, h⟩ := h.bind
    obtain ⟨-, rfl⟩ := pure_ok h.const
    exact keeps_reading h₃.const
  · obtain ⟨-, rfl⟩ := pure_ok h.const
    exact .refl _

/-- A call has an operand for each argument of the procedure. -/
theorem wrote_callMember {m : Member} {receiver : Ty} {span : Span}
    (h : Emitting π rec (fun r ↦ callMember Γ r m receiver span) s t s') :
    Wrote π Γ m.arguments.length s s' := by
  obtain ⟨_, s₁, h₁, h⟩ := h.bind
  obtain ⟨-, rfl⟩ := require_ok h₁.const
  obtain ⟨_, s₂, h₂, h⟩ := h.bind
  obtain ⟨-, rfl⟩ := pure_ok h.const
  have hw := wrote_arguments h₂
  rwa [argumentTypes, List.length_map] at hw

/-! ## Statements -/

/-- In front of a statement nothing has had an effect, so what it emits need not be an operand. -/
theorem writes_statement {token : Token}
    (h : Emitting π rec (fun r ↦ statement Γ r token) s u s') :
    ∃ o, Writes π Γ o s s' ∧ o.length ≤ 1 := by
  obtain ⟨_, s₁, h₁, h⟩ := h.bind
  cases h₁.const
  obtain ⟨_, s₂, h₂, h⟩ := h.bind
  obtain ⟨o, ho, hle, -⟩ := h₂.call
  obtain ⟨f, s₃, h₃, h⟩ := h.bind
  cases h₃.const
  have hk : Keeps s₂ s' := by
    rcases h.ite with ⟨-, h⟩ | ⟨-, h⟩
    · exact keeps_warn h.const
    · obtain ⟨-, rfl⟩ := pure_ok h.const
      exact .refl _
  have hs : Writes π Γ o s s₂ := .behind ho rfl rfl rfl
  have hw := hs.append (.nil hk)
  rw [List.append_nil] at hw
  exact ⟨o, hw, hle⟩

theorem wrote_statements (h : Emitting π rec (fun r ↦ statements Γ r) s u s') :
    WroteSome π Γ s s' := by
  refine wrote_repeatUntil (fun _ s x s' h ↦ ?_) h
  obtain ⟨token, s₁, h₁, h⟩ := h.bind
  refine (WroteSome.of_keeps (keeps_next h₁.const)).trans ?_
  rcases h.ite with ⟨-, h⟩ | ⟨-, h⟩
  · obtain ⟨-, rfl⟩ := pure_ok h.const
    exact .refl _
  · obtain ⟨_, s₂, h₂, h⟩ := h.bind
    obtain ⟨-, rfl⟩ := pure_ok h.const
    obtain ⟨o, ho, -⟩ := writes_statement h₂
    exact ⟨o, ho⟩

end Analysis

end Pictograph
