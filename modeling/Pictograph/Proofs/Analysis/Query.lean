import Pictograph.Analysis.Expression

/-!
# Queries

An analysis of a construct asks for the analysis of the expressions inside it. A *query* is one such
question: a setting, the first token of the expression, the type the context asks for, and the state
in which it is asked. Which queries a run asks is defined in `Proofs.Analysis.Reached`. Here it is
enough to know something about all answers that there are.

## Main definitions

* `Query`: a question for the analysis of an expression.
* `Yields`: a run of an analysis ends with a value, and all answers to queries have a property.
-/

namespace Pictograph

/-- A question for the analysis of an expression. -/
structure Query where
  /-- The setting of the expression. -/
  setting : Setting
  /-- Its first token, which has been read. -/
  token : Token
  /-- The type the context asks for. -/
  hint : Option Ty
  /-- The state in front of the expression, behind its first token. -/
  state : State

/-- What is known about the body of a closure. It is no initializer, and its dead code is
written. -/
def Setting.ofClosure (Γ : Setting) (result : Ty) : Setting :=
  { Γ with result, initializer? := none, options := Γ.options.withDeadCode true }

/-- The answer to a query. -/
def Recursion.answer (rec : Recursion) (q : Query) : EStateM.Result Fault State Ty :=
  rec q.setting q.token q.hint q.state

/-- The value that a run ends with, if it succeeds. -/
def Analysis.value? {α : Type} : EStateM.Result Fault State α → Option α
  | .ok a _ => some a
  | .error _ _ => none

/-- The state that a run ends in. -/
def Analysis.final {α : Type} : EStateM.Result Fault State α → State
  | .ok _ s | .error _ s => s

theorem Analysis.eq_ok_of_value? {α : Type} {r : EStateM.Result Fault State α} {a : α}
    (h : value? r = some a) : r = .ok a (final r) := by
  cases r with
  | ok a' s =>
    cases h
    rfl
  | error fault s => cases h

/-- Running an analysis from a state ends with a value in another state, and all answers to queries
have a property. -/
structure Yields {α : Type} (rec : Recursion) (P : Query → State → Prop)
    (m : Recursion → Analysis α) (s : State) (a : α) (s' : State) : Prop where
  run : m rec s = .ok a s'
  answers : ∀ q t s₁, rec.answer q = .ok t s₁ → P q s₁

namespace Analysis

variable {α β : Type} {s s' : State}

/-! ## Successful steps -/

theorem bind_ok {x : Analysis α} {f : α → Analysis β} {b : β} (h : (x >>= f) s = .ok b s') :
    ∃ a s₁, x s = .ok a s₁ ∧ f a s₁ = .ok b s' := by
  change EStateM.bind x f s = _ at h
  unfold EStateM.bind at h
  cases hx : x s with
  | ok a s₁ =>
    rw [hx] at h
    exact ⟨a, s₁, rfl, h⟩
  | error fault s₁ =>
    rw [hx] at h
    cases h

theorem bind_of_ok {m : Analysis α} {f : α → Analysis β} {a : α} (h : m s = .ok a s') :
    (m >>= f) s = f a s' := by
  change EStateM.bind m f s = _
  rw [EStateM.bind, h]

theorem bind_of_error {m : Analysis α} {f : α → Analysis β} {fault : Fault}
    (h : m s = .error fault s') : (m >>= f) s = .error fault s' := by
  change EStateM.bind m f s = _
  rw [EStateM.bind, h]

theorem pure_ok {a b : α} (h : (pure a : Analysis α) s = .ok b s') : a = b ∧ s = s' := by
  cases h
  exact ⟨rfl, rfl⟩

theorem map_ok {g : α → β} {m : Analysis α} {b : β} (h : (g <$> m) s = .ok b s') :
    ∃ a, m s = .ok a s' ∧ g a = b := by
  rw [map_eq_pure_bind] at h
  obtain ⟨a, s₁, h₁, h₂⟩ := bind_ok h
  obtain ⟨rfl, rfl⟩ := pure_ok h₂
  exact ⟨a, h₁, rfl⟩

theorem require_ok {condition : Bool} {cause : Cause} {span : Span} {u : Unit}
    (h : require condition cause span s = .ok u s') : condition ∧ s = s' := by
  unfold require at h
  split at h
  · next hc => exact ⟨hc, (pure_ok h).2⟩
  · cases h

theorem demand_ok {value? : Option α} {cause : Cause} {span : Span} {a : α}
    (h : demand value? cause span s = .ok a s') : value? = some a ∧ s = s' := by
  unfold demand at h
  split at h
  · exact ⟨congrArg some (pure_ok h).1, (pure_ok h).2⟩
  · cases h

theorem filling_ok {f : Assembler → Option Assembler} {u : Unit} (h : filling f s = .ok u s') :
    ∃ a, f s.assembler = some a ∧ s' = { s with assembler := a } := by
  unfold filling at h
  split at h
  · next a ha =>
    cases h
    exact ⟨a, ha, rfl⟩
  · cases h

/-- A reserved word that can be filled is filled. -/
theorem filling_of_some {f : Assembler → Option Assembler} {a : Assembler}
    (h : f s.assembler = some a) : filling f s = .ok () { s with assembler := a } := by
  rw [filling, h]

theorem lift_ok {x : Except Fault α} {a : α} (h : lift x s = .ok a s') :
    x = .ok a ∧ s = s' := by
  unfold lift at h
  split at h
  · exact ⟨congrArg Except.ok (pure_ok h).1, (pure_ok h).2⟩
  · cases h

theorem reading_ok {α : Type} {r : Reading α} {a : α} (h : reading r s = .ok a s') :
    ∃ cursor, r s.cursor = .ok a cursor ∧ s' = { s with cursor } := by
  unfold reading at h
  split at h
  · next b cursor hr =>
    cases h
    exact ⟨cursor, hr, rfl⟩
  · cases h

theorem requireComplete_ok {Γ : Setting} {span : Span} {u : Unit}
    (h : requireComplete Γ span s = .ok u s') :
    s = s' ∧ (Γ.initializer?.isSome → s.environment.requireComplete span = .ok ()) := by
  unfold requireComplete at h
  split at h
  · obtain ⟨_, s₁, h₁, h⟩ := bind_ok h
    cases h₁
    obtain ⟨hl, rfl⟩ := lift_ok h
    exact ⟨rfl, fun _ ↦ hl⟩
  · next hi => exact ⟨(pure_ok h).2, fun hs ↦ absurd hs hi⟩

/-! ### Loops that compute the same -/

section

variable {σ τ β γ : Type} {f : σ → τ} {g : β → γ} {step : σ → Analysis (σ ⊕ β)}
  {step' : τ → Analysis (τ ⊕ γ)}

theorem repeating_map (h : ∀ v, step' (f v) = Sum.map f g <$> step v) (fuel : Nat) (v : σ) :
    repeating step' fuel (f v) = g <$> repeating step fuel v := by
  induction fuel generalizing v with
  | zero => rfl
  | succ fuel ih =>
    rw [repeating, repeating, h, map_eq_pure_bind, map_eq_pure_bind, bind_assoc, bind_assoc]
    congr 1
    funext answer
    rw [pure_bind]
    cases answer with
    | inl v => exact (ih v).trans (map_eq_pure_bind _ _)
    | inr b => rw [Sum.map_inr, pure_bind]

/-- A loop whose steps compute what is read off the steps of another computes what is read off the
answer of the other. -/
theorem repeatUntil_map (h : ∀ v, step' (f v) = Sum.map f g <$> step v) (v : σ) :
    repeatUntil step' (f v) = g <$> repeatUntil step v := by
  rw [repeatUntil, repeatUntil, map_bind]
  congr 1
  funext s
  exact repeating_map h _ v

end

/-! ### The statements of a body -/

theorem next_ok {token : Token} (h : next s = .ok token s') : s.cursor.peek = some token := by
  obtain ⟨cursor, hr, -⟩ := reading_ok h
  unfold Reading.next at hr
  split at hr
  · next t d hadvance =>
    cases hr
    rw [Cursor.peek, (Cursor.advance_eq_some hadvance).1, List.head?_cons]
  · cases hr

theorem deadStatement?_ok {dead? : Option Token} (h : deadStatement? s = .ok dead? s') :
    s = s' ∧ dead? = if s.frame.hasReturned then
      s.cursor.peek.filter fun token ↦ !token.asksFor .blockClose else none := by
  obtain ⟨f, s₁, h₁, h⟩ := bind_ok h
  cases h₁
  split at h
  · next hr =>
    cases h
    exact ⟨rfl, (if_pos hr).symm⟩
  · next hr =>
    cases h
    exact ⟨rfl, (if_neg hr).symm⟩

/-- One step through the statements of a body. -/
def bodyStep (Γ : Setting) (rec : Recursion) (reported : Bool) : Analysis (Bool ⊕ Span) := do
  let token ← next
  if token.asksFor .blockClose then
    return .inr token.span
  statement Γ rec token
  if reported then
    return .inl true
  match ← deadStatement? with
  | none => return .inl false
  | some dead =>
    warn .deadCode dead.span
    if Γ.options.compilesDeadCode then
      return .inl true
    return .inr (← skipBody)

/-- One step through what is left out of a body, in so many blocks. -/
def skipStep (depth : Nat) : Analysis (Nat ⊕ Span) := do
  let token ← next
  if token.asksFor .blockOpen then
    return .inl (depth + 1)
  if token.asksFor .blockClose then
    return if depth = 0 then .inr token.span else .inl (depth - 1)
  return .inl depth

theorem skipBody_eq : skipBody = repeatUntil skipStep 0 := rfl

theorem bodyStatements_eq (Γ : Setting) (rec : Recursion) :
    bodyStatements Γ rec = repeatUntil (bodyStep Γ rec) false := rfl

end Analysis

/-! ## Steps that ask queries -/

namespace Yields

variable {α β : Type} {rec : Recursion} {P : Query → State → Prop}
  {s s' : State}

theorem bind {m : Recursion → Analysis α} {f : Recursion → α → Analysis β} {b : β}
    (h : Yields rec P (fun r ↦ m r >>= f r) s b s') :
    ∃ a s₁, Yields rec P m s a s₁ ∧ Yields rec P (fun r ↦ f r a) s₁ b s' := by
  obtain ⟨a, s₁, h₁, h₂⟩ := Analysis.bind_ok h.run
  exact ⟨a, s₁, ⟨h₁, h.answers⟩, h₂, h.answers⟩

/-- A run of which nothing else is known. -/
theorem of_run {m : Recursion → Analysis α} {a : α} (h : m rec s = .ok a s') :
    Yields rec (fun _ _ ↦ True) m s a s' :=
  ⟨h, fun _ _ _ _ ↦ trivial⟩

/-- A step that asks nothing. -/
theorem const {x : Analysis α} {a : α} (h : Yields rec P (fun _ ↦ x) s a s') : x s = .ok a s' :=
  h.run

/-- A step that is a query. -/
theorem call {Γ : Setting} {token : Token} {hint : Option Ty} {t : Ty}
    (h : Yields rec P (fun r ↦ r Γ token hint) s t s') : P ⟨Γ, token, hint, s⟩ s' :=
  h.answers _ t s' h.run

/-- A choice that asks nothing. -/
theorem ite {c : Prop} [Decidable c] {m n : Recursion → Analysis α} {a : α}
    (h : Yields rec P (fun r ↦ if c then m r else n r) s a s') :
    c ∧ Yields rec P m s a s' ∨ ¬ c ∧ Yields rec P n s a s' := by
  by_cases hc : c
  · simp only [if_pos hc] at h
    exact .inl ⟨hc, h⟩
  · simp only [if_neg hc] at h
    exact .inr ⟨hc, h⟩

/-- A step that may be left out. -/
theorem optional {c : Prop} [Decidable c] {x : Analysis Unit} {m : Recursion → Unit → Analysis α}
    {a : α} (h : Yields rec P (fun r ↦ if c then x >>= m r else m r ()) s a s') :
    ∃ s₁, (x s = .ok () s₁ ∨ s = s₁) ∧ Yields rec P (fun r ↦ m r ()) s₁ a s' := by
  rcases h.ite with ⟨-, h⟩ | ⟨-, h⟩
  · obtain ⟨_, s₁, h₁, h⟩ := h.bind
    exact ⟨s₁, .inl h₁.const, h⟩
  · exact ⟨s, .inr rfl, h⟩

/-- What holds of a repetition, if it holds of the last step and goes from the rest of a repetition
to the whole of it. -/
theorem repeating {σ : Type} {step : Recursion → σ → Analysis (σ ⊕ β)}
    {Q : σ → State → β → State → Prop}
    (last : ∀ v s b s', Yields rec P (fun r ↦ step r v) s (.inr b) s' → Q v s b s')
    (next : ∀ v s v' s₁ b s', Yields rec P (fun r ↦ step r v) s (.inl v') s₁ → Q v' s₁ b s' →
      Q v s b s') {fuel : Nat} {v : σ} {b : β}
    (h : Yields rec P (fun r ↦ Analysis.repeating (step r) fuel v) s b s') : Q v s b s' := by
  induction fuel generalizing v s with
  | zero => cases h.run
  | succ fuel ih =>
    obtain ⟨a, s₁, h₁, h⟩ := h.bind
    cases a with
    | inl v' => exact next v s v' s₁ b s' h₁ (ih h)
    | inr b' =>
      obtain ⟨rfl, rfl⟩ := Analysis.pure_ok h.const
      exact last v s b' s₁ h₁

theorem repeatUntil {σ : Type} {step : Recursion → σ → Analysis (σ ⊕ β)}
    {Q : σ → State → β → State → Prop}
    (last : ∀ v s b s', Yields rec P (fun r ↦ step r v) s (.inr b) s' → Q v s b s')
    (next : ∀ v s v' s₁ b s', Yields rec P (fun r ↦ step r v) s (.inl v') s₁ → Q v' s₁ b s' →
      Q v s b s') {v : σ} {b : β}
    (h : Yields rec P (fun r ↦ Analysis.repeatUntil (step r) v) s b s') : Q v s b s' := by
  obtain ⟨_, s₁, h₁, h⟩ := h.bind
  cases h₁.const
  exact h.repeating last next

end Yields

end Pictograph
