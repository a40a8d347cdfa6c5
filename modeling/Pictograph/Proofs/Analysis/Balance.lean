import Pictograph.Proofs.Analysis.Expressions

/-!
# Balance

A construct may open scopes, blocks and reservations, and run a closure with scopes of its own over
the fields that it shares with the body around it. All of that is closed again when the construct
was analysed. Around it the analysis knows at least what it knew before: whatever was declared is
still declared at the same place, and what had a value has it still, with the very counter it had.

The counters are the delicate part, since every block shifts those of all scopes and of the fields.
A counter that is not positive is not shifted, and one that is has to come back unchanged.

## Main definitions

* `Variable.Stays`, `Scope.Retains`: a variable and the variables of a scope are still there.
* `State.Balanced`: what an analysis leaves as it found it.

## Main results

* `Written.balanced`: what emits code by the rules is balanced.
* `Analysis.expression_statement_balanced`: every expression and every statement is balanced.
* `Analysis.balanced_statements`: so is a whole block of statements.
-/

namespace Pictograph

/-! ## What stays -/

/-- A variable is the one it was: its counter may only differ if there was no value. -/
structure Variable.Stays (v v' : Variable) : Prop where
  name : v'.name = v.name
  type : v'.type = v.type
  slot : v'.slot = v.slot
  isFrozen : v'.isFrozen = v.isFrozen
  readiness : 0 < v.readiness → v'.readiness = v.readiness

/-- All variables of a scope are still declared at their places. Others may follow them. -/
def Scope.Retains (s s' : Scope) : Prop :=
  ∀ (i : Nat) (v : Variable), s.declared[i]? = some v → ∃ v', s'.declared[i]? = some v' ∧ v.Stays v'

/-- What an analysis leaves as it found it. -/
structure State.Balanced (s s' : State) : Prop where
  /-- As many scopes are open. -/
  depth : s'.environment.depth = s.environment.depth
  /-- As many blocks are open that may be skipped. -/
  flowDepth : s'.frame.flowDepth = s.frame.flowDepth
  /-- The same reservations are open. -/
  holes : s'.assembler.holes = s.assembler.holes
  /-- The variables of every scope are still declared in it. -/
  locals : ∀ (i : Nat) (scope : Scope), s.environment.locals[i]? = some scope →
    ∃ scope', s'.environment.locals[i]? = some scope' ∧ scope.Retains scope'
  /-- The fields are still declared, if there are any. -/
  fields : Option.Rel Scope.Retains s.environment.fields s'.environment.fields

theorem Variable.Evolves.stays {v v' : Variable} (h : v.Evolves v') : v.Stays v' where
  name := h.name
  type := h.type
  slot := h.slot
  isFrozen := h.isFrozen
  readiness := by
    intro hv
    obtain hsame | ⟨hle, -⟩ := h.readiness
    · exact hsame
    · omega

/-- What is in front of the new variables of a list stays there. -/
theorem exists_getElem?_append_of_evolves {l old : List Variable} (new : List Variable) {i : Nat}
    {v : Variable} (h : List.Forall₂ Variable.Evolves l old) (hv : l[i]? = some v) :
    ∃ v', (old ++ new)[i]? = some v' ∧ v.Stays v' := by
  obtain ⟨hi, rfl⟩ := List.getElem?_eq_some_iff.mp hv
  have hlt : i < old.length := h.length_eq ▸ hi
  refine ⟨old[i], ?_, (h.get hi hlt).stays⟩
  rw [List.getElem?_append_left hlt, List.getElem?_eq_getElem hlt]

theorem Scope.Evolves.retains {s s' : Scope} (h : s.Evolves s') : s.Retains s' := by
  intro i v hv
  obtain ⟨v', hv', hstays⟩ := exists_getElem?_append_of_evolves [] h hv
  rw [List.append_nil] at hv'
  exact ⟨v', hv', hstays⟩

theorem Scope.Grows.retains {s s' : Scope} {lo hi : Nat} (h : s.Grows lo hi s') :
    s.Retains s' := by
  obtain ⟨old, new, hnew, hold, -⟩ := h
  intro i v hv
  rw [hnew]
  exact exists_getElem?_append_of_evolves new hold hv

namespace Environment.Grows

variable {e e' : Environment} {lo hi : Nat}

theorem depth_eq (h : e.Grows lo hi e') : e'.depth = e.depth := by
  rw [depth, depth, locals, locals, List.length_cons, List.length_cons, h.outer.length_eq]

theorem retains_locals (h : e.Grows lo hi e') {i : Nat} {scope : Scope}
    (hi : e.locals[i]? = some scope) :
    ∃ scope', e'.locals[i]? = some scope' ∧ scope.Retains scope' := by
  cases i with
  | zero =>
    cases hi
    exact ⟨e'.current, rfl, h.current.retains⟩
  | succ i =>
    obtain ⟨hlt, rfl⟩ := List.getElem?_eq_some_iff.mp (show e.outer[i]? = some scope from hi)
    have hlt' : i < e'.outer.length := h.outer.length_eq ▸ hlt
    exact ⟨e'.outer[i], List.getElem?_eq_getElem hlt', (h.outer.get hlt hlt').retains⟩

theorem retains_fields (h : e.Grows lo hi e') :
    Option.Rel Scope.Retains e.fields e'.fields := by
  have hfields := h.fields
  generalize e.fields = fields, e'.fields = fields' at hfields ⊢
  cases hfields with
  | none => exact .none
  | some hscope => exact .some hscope.retains

end Environment.Grows

/-! ## Balanced steps -/

/-- **What emits code by the rules is balanced.** -/
theorem Written.balanced {π : Pins} {Γ : Setting} {o : Outline} {s s' : State}
    (h : Written π Γ o s s') : s.Balanced s' := by
  have hgrows : s.context.Grows s'.context := h.emits.grows
  constructor
  · exact hgrows.environment.depth_eq
  · exact hgrows.flowDepth
  · exact h.holes
  · intro i scope hi
    exact hgrows.environment.retains_locals hi
  · exact hgrows.environment.retains_fields

namespace Analysis

variable {Γ : Setting} {s s' : State} {token : Token} {fuel : Nat}

/-- Whatever expressions there are, an analysis of an expression emits by the rules. -/
theorem wrote_expression {q : Query} {n : Nat} {t : Ty} (h : (expression n).answer q = .ok t s') :
    Wrote (.ofAnalysis fun _ _ ↦ True) q.setting 1 q.state s' := by
  induction n generalizing q t s' with
  | zero => cases h
  | succ n ih =>
    exact wrote_expressionStep (n := n) (t := t) trivial (fun _ _ _ hanswer ↦ hanswer)
      ⟨h, fun _ _ _ hanswer ↦ ih hanswer⟩

/-- A run that asks for expressions gets answers that emit code by the rules. -/
theorem emitting_of_ok {α : Type} {m : Recursion → Analysis α} {a : α}
    (h : m (expression fuel) s = .ok a s') :
    Emitting (.ofAnalysis fun _ _ ↦ True) (expression fuel) m s a s' :=
  ⟨h, fun _ _ _ hanswer ↦ wrote_expression hanswer⟩

/-- **Analysis is balanced and never loses a value.** From every state, an expression and a
statement whose analysis succeeds leave as many scopes, as many blocks that may be skipped and the
same reservations open. Every variable declared before, in a scope or as a field, is still declared
there, with its type, its slot and its frozen mark, and with its counter if that was positive. -/
theorem expression_statement_balanced (fuel : Nat) (Γ : Setting) (token : Token) (s s' : State) :
    (∀ hint t, expression fuel Γ token hint s = .ok t s' → s.Balanced s')
    ∧ (statement Γ (expression fuel) token s = .ok () s' → s.Balanced s') := by
  constructor
  · intro hint t h
    have hemitting := emitting_of_ok (m := fun r ↦ r Γ token hint) h
    obtain ⟨o, hwrites, -⟩ := hemitting.call
    exact hwrites.balanced
  · intro h
    have hemitting := emitting_of_ok (m := fun r ↦ statement Γ r token) h
    obtain ⟨o, hwrites, -⟩ := writes_statement hemitting
    exact hwrites.balanced

/-- The state behind the `🍊` of a branch that assigns to a variable of the body,
`🍊 👍 🍇 🍮 x 👍 🍉`, in a body that reaches a field. -/
def Sample.behindBranch : State where
  cursor := .start ([.boolean true, .identifier Construct.blockOpen.spelling,
    .identifier Construct.assign.spelling, .reference "x", .boolean true,
    .identifier Construct.blockClose.spelling].map (Token.mk · .nowhere))
  assembler := .start
  session := .start
  environment := {
    current := ⟨[Variable.ready { name := "x", type := .boolean, slot := 0, span := .nowhere }]⟩
    fields := some ⟨[{ name := "f", type := .boolean, slot := 0, span := .nowhere }]⟩ }
  frame := { slotCount := 1 }

/-- The branch is balanced, as an expression and as a statement. -/
theorem expression_statement_balanced_sample :
    let Γ : Setting := ⟨.empty, {}, .nothingness, Vocabulary.defaultNamespace, false, .nothingness,
      none⟩
    let token : Token := ⟨.identifier Construct.ifBranch.spelling, .nowhere⟩
    ∃ s₁ s₂, expression 6 Γ token none Sample.behindBranch = .ok .nothingness s₁
      ∧ Sample.behindBranch.Balanced s₁
      ∧ statement Γ (expression 6) token Sample.behindBranch = .ok () s₂
      ∧ Sample.behindBranch.Balanced s₂ := by
  intro Γ token
  have hvalue : value? (expression 6 Γ token none Sample.behindBranch) = some .nothingness := by
    decide +kernel
  have hdone : value? (statement Γ (expression 6) token Sample.behindBranch) = some () := by
    decide +kernel
  have hexpression := eq_ok_of_value? hvalue
  have hstatement := eq_ok_of_value? hdone
  have hbalanced := expression_statement_balanced 6 Γ token Sample.behindBranch
  exact ⟨_, _, hexpression, (hbalanced _).1 _ _ hexpression, hstatement,
    (hbalanced _).2 hstatement⟩

/-- **A block of statements is balanced.** -/
theorem balanced_statements (h : statements Γ (expression fuel) s = .ok () s') :
    s.Balanced s' := by
  have hemitting := emitting_of_ok (m := fun r ↦ statements Γ r) h
  obtain ⟨o, hwrites⟩ := wrote_statements hemitting
  exact hwrites.balanced

end Analysis

end Pictograph
