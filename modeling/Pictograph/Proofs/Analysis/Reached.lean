import Mathlib.Tactic.ByContra
import Pictograph.Proofs.Analysis.Touches

/-!
# The queries of a run

Which queries a run of an analysis asks shows in what happens if they fail: no construct goes on
behind a fault of an expression inside it. So a run *asks* a query just if, were this one query
answered with a fault, the run would stop with this fault in this state. What a run asks in this
sense, it asks: a query that it does not ask could not make a difference.

From its own setting an analysis of an expression gets to expressions of the same body and, in
closures, of bodies that belong to the same class.

## Main definitions

* `Asks`: the run of an analysis from a state asks a query.
* `Reaches`: an analysis gets to a query, directly or through others.
* `Setting.Shares`: two settings have the declared types and the instance in common.
* `Confined`: an analysis depends on how queries are answered in some settings only.

## Main results

* `Reaches.answered`: in a run that succeeds all queries are answered.
* `Reaches.shares`: all queries of a body are asked in settings that share its class.
-/

namespace Pictograph

/-- The run of an analysis from a state asks a query, given how queries are answered: were the query
answered with a fault, and all others as they are, the run would stop with the fault. -/
def Asks {α : Type} (rec : Recursion) (m : Recursion → Analysis α) (s : State) (q : Query) : Prop :=
  ∀ (rec' : Recursion) (fault : Fault) (s' : State),
    (∀ q', q' ≠ q → rec'.answer q' = rec.answer q') → rec'.answer q = .error fault s' →
    m rec' s = .error fault s'

/-- An analysis of expressions with at most `fuel` levels of nesting gets to a query, and `n` levels
are left there. -/
inductive Reaches {α : Type} (m : Recursion → Analysis α) (fuel : Nat) (s : State) :
    Nat → Query → Prop
  | asked {q} (hq : Asks (Analysis.expression fuel) m s q) : Reaches m fuel s fuel q
  | nested {n q q'} (h : Reaches m fuel s (n + 1) q)
      (hq : Asks (Analysis.expression n)
        (fun r ↦ Analysis.expressionStep r q.setting q.token q.hint) q.state q') :
      Reaches m fuel s n q'

/-! ## Queries that are asked -/

namespace Asks

variable {α β : Type} {rec : Recursion} {m : Recursion → Analysis α}
  {f : Recursion → α → Analysis β} {s s₁ s' : State} {q : Query} {a : α}

theorem call {Γ : Setting} {token : Token} {hint : Option Ty} :
    Asks rec (fun r ↦ r Γ token hint) s ⟨Γ, token, hint, s⟩ :=
  fun _ _ _ _ h ↦ h

theorem first (h : Asks rec m s q) : Asks rec (fun r ↦ m r >>= f r) s q :=
  fun rec' fault s' hrest hq ↦ Analysis.bind_of_error (h rec' fault s' hrest hq)

/-- What is asked behind a step that asks nothing. -/
theorem behind {x : Analysis α} (hx : x s = .ok a s₁) (h : Asks rec (fun r ↦ f r a) s₁ q) :
    Asks rec (fun r ↦ x >>= f r) s q :=
  fun rec' fault s' hrest hq ↦ (Analysis.bind_of_ok hx).trans (h rec' fault s' hrest hq)

/-- What is asked behind a step that can be computed. -/
theorem behind_value {x : Analysis α} (a : α) (hx : Analysis.value? (x s) = some a)
    (h : Asks rec (fun r ↦ f r a) (Analysis.final (x s)) q) : Asks rec (fun r ↦ x >>= f r) s q :=
  .behind (Analysis.eq_ok_of_value? hx) h

/-- What is asked behind a query that is answered. -/
theorem behind_call {Γ : Setting} {token : Token} {hint : Option Ty} {t : Ty}
    {g : Recursion → Ty → Analysis β} (hne : (⟨Γ, token, hint, s⟩ : Query) ≠ q)
    (hx : Analysis.value? (rec Γ token hint s) = some t)
    (h : Asks rec (fun r ↦ g r t) (Analysis.final (rec Γ token hint s)) q) :
    Asks rec (fun r ↦ r Γ token hint >>= g r) s q := by
  intro rec' fault s' hrest hq
  have hanswer : rec' Γ token hint s = rec Γ token hint s := hrest _ hne
  exact (Analysis.bind_of_ok (hanswer.trans (Analysis.eq_ok_of_value? hx))).trans
    (h rec' fault s' hrest hq)

theorem assoc {γ : Type} {g : Recursion → β → Analysis γ}
    (h : Asks rec (fun r ↦ m r >>= fun a ↦ f r a >>= g r) s q) :
    Asks rec (fun r ↦ (m r >>= f r) >>= g r) s q := by
  simpa only [bind_assoc] using h

/-- In a run that succeeds the queries are answered. -/
theorem answered (h : Asks rec m s q) (hm : m rec s = .ok a s') :
    ∃ t s₁, rec.answer q = .ok t s₁ := by
  cases hq : rec.answer q with
  | ok t s₁ => exact ⟨t, s₁, rfl⟩
  | error fault s₁ =>
    have herror := h rec fault s₁ (fun _ _ ↦ rfl) hq
    rw [hm] at herror
    cases herror

end Asks

/-! ## Settings of one class -/

/-- Two settings have the declared types and the instance in common. -/
structure Setting.Shares (Γ Γ' : Setting) : Prop where
  catalogue : Γ'.catalogue = Γ.catalogue
  selfType : Γ'.selfType = Γ.selfType

namespace Setting.Shares

theorem refl (Γ : Setting) : Γ.Shares Γ := ⟨rfl, rfl⟩

theorem trans {Γ Γ' Γ'' : Setting} (h : Γ.Shares Γ') (h' : Γ'.Shares Γ'') : Γ.Shares Γ'' :=
  ⟨h'.catalogue.trans h.catalogue, h'.selfType.trans h.selfType⟩

end Setting.Shares

/-- An analysis depends on how queries are answered only where they are asked in settings of the
class of `Γ`. -/
def Confined {α : Type} (Γ : Setting) (m : Recursion → Analysis α) : Prop :=
  ∀ rec rec' : Recursion, (∀ Γ', Γ.Shares Γ' → rec Γ' = rec' Γ') → m rec = m rec'

open Classical in
/-- A way to answer queries, with one query answered with a fault. -/
noncomputable def Recursion.failingAt (rec : Recursion) (q : Query) (fault : Fault) : Recursion :=
  fun Γ token hint s ↦ if (⟨Γ, token, hint, s⟩ : Query) = q then .error fault s
    else rec Γ token hint s

theorem Recursion.answer_failingAt_self (rec : Recursion) (q : Query) (fault : Fault) :
    (rec.failingAt q fault).answer q = .error fault q.state :=
  if_pos rfl

theorem Recursion.answer_failingAt_of_ne {rec : Recursion} {q q' : Query} {fault : Fault}
    (h : q' ≠ q) : (rec.failingAt q fault).answer q' = rec.answer q' :=
  if_neg h

/-- If a query that is asked fails, the run fails in front of it. -/
theorem Asks.eq_error {α : Type} {rec : Recursion} {m : Recursion → Analysis α} {s : State}
    {q : Query} (h : Asks rec m s q) (fault : Fault) :
    m (rec.failingAt q fault) s = .error fault q.state :=
  h _ fault q.state (fun _ hq' ↦ Recursion.answer_failingAt_of_ne hq')
    (rec.answer_failingAt_self q fault)

/-- A confined analysis asks queries in settings of its class only. -/
theorem Confined.shares {α : Type} {Γ : Setting} {rec : Recursion} {m : Recursion → Analysis α}
    {s : State} {q : Query} (hm : Confined Γ m) (h : Asks rec m s q) : Γ.Shares q.setting := by
  by_contra hnot
  -- a fault of the query would not show
  have hsame (fault : Fault) : m (rec.failingAt q fault) = m rec := by
    refine hm _ _ fun Γ' hΓ' ↦ ?_
    funext token hint s'
    refine if_neg ?_
    rintro rfl
    exact hnot hΓ'
  have hfault (fault : Fault) : m rec s = .error fault q.state := by
    rw [← hsame fault]
    exact h.eq_error fault
  cases (hfault .exhausted).symm.trans (hfault .misfilled)

/-! ## Constructs are confined -/

namespace Analysis

section

variable {Γ : Setting} {rec rec' : Recursion}

theorem operandsFitting_congr (h : rec Γ = rec' Γ) (ts : List Ty) :
    operandsFitting Γ rec ts = operandsFitting Γ rec' ts := by
  induction ts with
  | nil => rfl
  | cons t ts ih => simp only [operandsFitting, operandFitting, fitting, h, ih]

theorem callMember_congr (h : rec Γ = rec' Γ) (m : Member) (receiver : Ty) (span : Span) :
    callMember Γ rec m receiver span = callMember Γ rec' m receiver span := by
  simp only [callMember, arguments, operandsFitting_congr h]

theorem conditionalBlock_congr (h : rec Γ = rec' Γ) :
    conditionalBlock Γ rec = conditionalBlock Γ rec' := by
  simp only [conditionalBlock, statements, statement, h]

theorem branch_congr (h : rec Γ = rec' Γ) : branch Γ rec = branch Γ rec' := by
  simp only [branch, condition, operand, operandFitting, fitting, conditionalBlock_congr h, h]

theorem storeNew_congr (h : rec Γ = rec' Γ) (x : String) (span : Span) :
    storeNew Γ rec x span = storeNew Γ rec' x span := by
  simp only [storeNew, operand, h]

theorem body_congr (h : rec Γ = rec' Γ) (arguments : List Argument) (captured : List Variable)
    (outerSlots : Nat) :
    body Γ rec arguments captured outerSlots = body Γ rec' arguments captured outerSlots := by
  simp only [body, bodyStatements, statement, h]

/-- Each construct asks queries in its own setting, but for closures. -/
theorem construct_congr (h : rec Γ = rec' Γ) (hclosure : closure Γ rec = closure Γ rec')
    (token : Token) (symbol : Symbol) (hint : Option Ty) :
    construct Γ rec token symbol hint = construct Γ rec' token symbol hint := by
  unfold construct
  cases Construct.ofSymbol symbol
  case blockOpen => exact hclosure
  case assign => simp only [assign, operandFitting, fitting, storeNew_congr h, h]
  case declareFrozen => simp only [declareFrozen, storeNew_congr h]
  case concatenate => simp only [concatenate, operandFitting, fitting, h]
  case list => simp only [list, h]
  case dictionary => simp only [dictionary, fitting, operand, h]
  case ifBranch => simp only [ifChain, branch_congr h, conditionalBlock_congr h]
  case repeatWhile =>
    simp only [repeatWhile, operandFitting, fitting, conditionalBlock_congr h, h]
  case forIn => simp only [forIn, operandFitting, fitting, conditionalBlock_congr h, h]
  case returning => simp only [returnValue, operandFitting, fitting, h]
  case instantiate => simp only [instantiate, arguments, operandsFitting_congr h]
  case isNothingness => simp only [isNothingness, operand, h]
  case identical => simp only [identical, operandFitting, fitting, h]
  case superInitializer => simp only [superInitializer, arguments, operandsFitting_congr h]
  case cast => simp only [cast, operandFitting, fitting, h]
  case unwrap => simp only [unwrap, operand, h]
  case optionalChain => simp only [optionalChain, operand, callMember_congr h, h]
  case classMethod => simp only [callClassMethod, callMember_congr h]
  case captureMethod => simp only [captureMethod, operandAndSpan, h]
  case invoke => simp only [invoke, operandAndSpan, arguments, operandsFitting_congr h, h]
  case superMethod => simp only [callSuperMethod, callMember_congr h]
  case method =>
    simp only [call, operandAndSpan, operandFitting, fitting, callMember_congr h, h]
  all_goals rfl

/-- The body of a closure is analysed in a setting that shares the class. -/
theorem closure_congr (h : ∀ Γ', Γ.Shares Γ' → rec Γ' = rec' Γ') :
    closure Γ rec = closure Γ rec' := by
  have hbody (own : Setting) (hown : Γ.Shares own) : body own rec = body own rec' := by
    funext arguments captured n
    exact body_congr (h own hown) arguments captured n
  have hresult (result : Ty) :=
    hbody { Γ with result, initializer? := none, options := Γ.options.withDeadCode true } ⟨rfl, rfl⟩
  simp only [closure, hresult]

end

end Analysis

theorem confined_expressionStep (Γ : Setting) (token : Token) (hint : Option Ty) :
    Confined Γ (fun r ↦ Analysis.expressionStep r Γ token hint) := by
  intro rec rec' h
  have hconstruct := Analysis.construct_congr (h Γ (.refl Γ)) (Analysis.closure_congr h)
  simp only [Analysis.expressionStep, hconstruct]

theorem confined_body (Γ : Setting) (arguments : List Argument) (captured : List Variable)
    (outerSlots : Nat) :
    Confined Γ (fun r ↦ Analysis.body Γ r arguments captured outerSlots) :=
  fun _ _ h ↦ Analysis.body_congr (h Γ (.refl Γ)) arguments captured outerSlots

/-! ## Whole runs -/

namespace Reaches

variable {α : Type} {m : Recursion → Analysis α} {fuel n : Nat} {s s' : State} {q : Query} {a : α}
  {Γ : Setting}

/-- In a run that succeeds all queries are answered. -/
theorem answered (h : Reaches m fuel s n q) (hm : m (Analysis.expression fuel) s = .ok a s') :
    ∃ t s₁, (Analysis.expression n).answer q = .ok t s₁ := by
  induction h with
  | asked hq => exact hq.answered hm
  | nested _ hq ih =>
    obtain ⟨t, s₁, hanswer⟩ := ih
    exact hq.answered hanswer

/-- All queries that a confined analysis gets to are asked in settings of its class. -/
theorem shares (h : Reaches m fuel s n q) (hm : Confined Γ m) : Γ.Shares q.setting := by
  induction h with
  | asked hq => exact hm.shares hq
  | @nested n q q' _ hq ih => exact ih.trans ((confined_expressionStep q.setting _ _).shares hq)

end Reaches

end Pictograph
