import Pictograph.Proofs.Analysis.Touches
import Pictograph.Proofs.Analysis.Writing
import Pictograph.Proofs.Catalogue.Identities

/-!
# Lookups

Seven constructs refer to a procedure: calls, calls behind an optional, calls of class methods and
of methods of the superclass, captured methods, instantiations and superinitializers. They find it
in different ways, from a receiver that has been analysed, from an annotation or from the class of
the body. What they look for is a *lookup*: a sort of procedure, the type that it is looked up on, a
name, and the type on which the signature is read.

The lookup of a construct is computed by the steps in front of it. The construct itself succeeds
only if these steps do, if there is a member, and if the body may use the member.

## Main definitions

* `Lookup`: a reference to a procedure.
* `Analysis.lookup?`: the lookup of a construct, if it refers to a procedure.
* `Lookup.Gives`: the types of the constructs that refer to a procedure.
* `Analysis.Found`: a lookup finds a member that the body may use.

## Main results

* `Analysis.exists_found`: an expression that is accepted finds a member that the body may use.
-/

namespace Pictograph

/-- A reference to a procedure. -/
structure Lookup where
  /-- The sort of procedure. -/
  kind : Procedure.Kind
  /-- The type that it is looked up on. -/
  target : Ty
  /-- Its name. -/
  symbol : Symbol
  /-- The type on which its signature is read. -/
  receiver : Ty
deriving DecidableEq

namespace Lookup

/-- The member that a lookup finds. -/
def member? (l : Lookup) (cat : Catalogue) : Option Member :=
  cat.member? l.kind l.target l.symbol

/-- The types of constructs that refer to a procedure. -/
inductive Gives (l : Lookup) (m : Member) : Ty → Prop
  /-- A call has the type of the result. -/
  | result : Gives l m (.resolve l.receiver m.result)
  /-- A call that may not happen has the same type, optional. -/
  | optionalResult : Gives l m (Ty.resolve l.receiver m.result).optional
  /-- A captured method takes the arguments of the method. -/
  | bound : Gives l m
      (.callable (.resolve l.receiver m.result) (Analysis.argumentTypes m l.receiver))
  /-- An instantiation has the type of the class. -/
  | created (hclass : l.receiver.objectId?.isSome) :
      Gives l m (l.receiver.withOptional m.mayFail)
  /-- A superinitializer has no value. -/
  | nothingness : Gives l m .nothingness

end Lookup

namespace Analysis

variable (Γ : Setting) (rec : Recursion)

/-! ## The steps in front of a lookup -/

/-- The lookup of a call, unless it applies an operator. -/
def lookupOfCall (method : Symbol) : Analysis (Option Lookup) := do
  let _ ← reserve
  let (receiver, _) ← operandAndSpan Γ rec
  let dispatch := dispatchType Γ receiver
  return match dispatch.kind with
    | .protocol _ | .object _ => some ⟨.method, dispatch, method, receiver⟩
    | _ => none

/-- The lookup of a call behind an optional. -/
def lookupOfOptionalChain : Analysis Lookup := do
  emit .optionalChain
  let _ ← reserveCount
  let (method, _) ← name
  let t ← operand Γ rec
  return ⟨.method, t.unwrapped, method, t.unwrapped⟩

/-- The lookup of a call of a class method. -/
def lookupOfClassMethod : Analysis Lookup := do
  emit .classMethodCall
  let (method, _) ← name
  let (annotated, _) ← annotation Γ Γ.dynamism
  return ⟨.classMethod, annotated.unwrapped, method, annotated.unwrapped⟩

/-- The lookup of a call of a method of the superclass. -/
def lookupOfSuperMethod (span : Span) : Analysis Lookup := do
  let (method, _) ← name
  let parent ← demand Γ.superclass? (.invalidOperation "class has no superclass") span
  return ⟨.method, parent.selfType, method, Γ.selfType⟩

/-- The lookup of a captured method. -/
def lookupOfCapture : Analysis Lookup := do
  let (method, _) ← name
  emit .captureMethod
  let (receiver, _) ← operandAndSpan Γ rec
  return ⟨.method, receiver, method, receiver⟩

/-- The lookup of an instantiation. -/
def lookupOfInstantiation (span : Span) : Analysis Lookup := do
  emit .instantiate
  let (t, dynamic) ← annotation Γ Γ.dynamism
  let c ← demand (Γ.catalogue.classOf? t)
    (.typeMismatch s!"{Γ.typeName t} cannot be instantiated") span
  emitWord (classWord c dynamic)
  let (initializer, _) ← name
  return ⟨.initializer, t, initializer, t⟩

/-- The lookup of a superinitializer. -/
def lookupOfSuperInitializer (span : Span) : Analysis Lookup := do
  let spelling := Construct.superInitializer.spelling.text
  let parent ← demand Γ.superclass? (.invalidOperation
    s!"{spelling} can only be used if the class inherits from another") span
  emit .superInitializer
  emitNumber parent.index
  let (initializer, _) ← name
  return ⟨.initializer, parent.selfType, initializer, Γ.selfType⟩

/-- The steps of an invocation in front of its arguments, with the type of what is called. -/
def calleeOfInvocation : Analysis Ty := do
  emit .invoke
  let (t, _) ← operandAndSpan Γ rec
  return t

/-- The lookup of a construct, if it refers to a procedure. -/
def lookup? (symbol : Symbol) (span : Span) : Analysis (Option Lookup) :=
  match Construct.ofSymbol symbol with
  | .method method => lookupOfCall Γ rec method
  | .optionalChain => some <$> lookupOfOptionalChain Γ rec
  | .classMethod => some <$> lookupOfClassMethod Γ
  | .superMethod => some <$> lookupOfSuperMethod Γ span
  | .captureMethod => some <$> lookupOfCapture Γ rec
  | .instantiate => some <$> lookupOfInstantiation Γ span
  | .superInitializer => some <$> lookupOfSuperInitializer Γ span
  | _ => return none

end Analysis

/-- The lookup of the expression that a query asks for, if it refers to a procedure. -/
def Query.lookup? (rec : Recursion) (q : Query) : Analysis (Option Lookup) := do
  Analysis.setLine q.token.span.line
  match q.token.identifier? with
  | none => return none
  | some symbol =>
    if Construct.ofSymbol symbol ≠ .returning then
      Analysis.modifyFrame ({ · with hasEffect := true })
    Analysis.lookup? q.setting rec symbol q.token.span

namespace Analysis

/-- Some steps look up a procedure, which has so many arguments. -/
def Refers (Γ : Setting) (x : Analysis (Option Lookup)) (s : State) (count : Nat) : Prop :=
  ∃ l s₁ m, x s = .ok (some l) s₁ ∧ l.member? Γ.catalogue = some m ∧ m.arguments.length = count

theorem Refers.single {Γ : Setting} {x : Analysis Lookup} {s s₁ : State} {l : Lookup} {m : Member}
    (hx : x s = .ok l s₁) (hm : l.member? Γ.catalogue = some m) :
    Refers Γ (some <$> x) s m.arguments.length :=
  ⟨l, s₁, m, (bind_of_ok hx).trans rfl, hm, rfl⟩

/-! ## Accepted constructs -/

section

variable {Γ : Setting} {rec : Recursion} {s s' : State} {t : Ty} {span : Span} {m : Member}
  {receiver : Ty} {method : Symbol}

/-- A lookup finds a member that the body may use, and gives a construct the type `t`. What is
looked up for a class type is looked up on a class type. -/
structure Found (Γ : Setting) (t : Ty) (l : Lookup) (m : Member) : Prop where
  member : l.member? Γ.catalogue = some m
  mayUse : mayUse Γ m
  gives : l.Gives m t
  target : l.receiver.objectId?.isSome → l.target.objectId?.isSome

theorem requireAccess_ok {u : Unit} (h : requireAccess Γ m span s = .ok u s') : mayUse Γ m :=
  (require_ok h).1

theorem callMember_ok (h : callMember Γ rec m receiver span s = .ok t s') :
    mayUse Γ m ∧ t = .resolve receiver m.result := by
  obtain ⟨_, s₁, haccess, h⟩ := bind_ok h
  obtain ⟨_, s₂, -, h⟩ := bind_ok h
  exact ⟨requireAccess_ok haccess, (pure_ok h).1.symm⟩

theorem method?_of_objectMethod? (h : objectMethod? Γ receiver method = some m) :
    Γ.catalogue.method? receiver method = some m := by
  rw [objectMethod?] at h
  split at h
  · exact h
  · cases h

/-- Calls on values of class types are dispatched through their own types. -/
theorem dispatchType_of_objectId? (h : receiver.objectId?.isSome) :
    dispatchType Γ receiver = receiver := by
  obtain ⟨id, hid⟩ := Option.isSome_iff_exists.mp h
  rw [dispatchType, Ty.kind_of_objectId? hid]

theorem call_ok (h : call Γ rec method span s = .ok t s') :
    ∃ l? s₁, lookupOfCall Γ rec method s = .ok l? s₁ ∧ ∀ l ∈ l?, ∃ m, Found Γ t l m := by
  obtain ⟨opcode, s₁, hreserve, h⟩ := bind_ok h
  obtain ⟨⟨receiver, receiverSpan⟩, s₂, hoperand, h⟩ := bind_ok h
  obtain ⟨_, s₃, -, h⟩ := bind_ok h
  refine ⟨_, s₂, (bind_of_ok hreserve).trans ((bind_of_ok hoperand).trans rfl), ?_⟩
  dsimp only at h ⊢
  cases hkind : (dispatchType Γ receiver).kind with
  | protocol id =>
    simp only [hkind] at h
    obtain ⟨p, s₄, -, h⟩ := bind_ok h
    obtain ⟨m, s₅, hm, h⟩ := bind_ok h
    obtain ⟨_, s₆, -, h⟩ := bind_ok h
    obtain ⟨_, s₇, -, h⟩ := bind_ok h
    obtain ⟨_, s₈, -, h⟩ := bind_ok h
    obtain ⟨huse, rfl⟩ := callMember_ok h
    rintro l ⟨⟩
    refine ⟨m, (demand_ok hm).1, huse, .result, fun hclass ↦ ?_⟩
    rw [dispatchType_of_objectId? hclass]
    exact hclass
  | object id =>
    simp only [hkind] at h
    obtain ⟨m, s₅, hm, h⟩ := bind_ok h
    obtain ⟨_, s₆, -, h⟩ := bind_ok h
    obtain ⟨_, s₇, -, h⟩ := bind_ok h
    obtain ⟨huse, rfl⟩ := callMember_ok h
    rintro l ⟨⟩
    refine ⟨m, (demand_ok hm).1, huse, .result, fun hclass ↦ ?_⟩
    rw [dispatchType_of_objectId? hclass]
    exact hclass
  | _ =>
    intro l hl
    cases hl

theorem optionalChain_ok (h : optionalChain Γ rec span s = .ok t s') :
    ∃ l s₁, lookupOfOptionalChain Γ rec s = .ok l s₁ ∧ ∃ m, Found Γ t l m := by
  obtain ⟨_, s₁, hemit, h⟩ := bind_ok h
  obtain ⟨count, s₂, hreserve, h⟩ := bind_ok h
  obtain ⟨⟨method, methodSpan⟩, s₃, hname, h⟩ := bind_ok h
  obtain ⟨u, s₄, hoperand, h⟩ := bind_ok h
  refine ⟨_, s₄, (bind_of_ok hemit).trans ((bind_of_ok hreserve).trans
    ((bind_of_ok hname).trans ((bind_of_ok hoperand).trans rfl))), ?_⟩
  obtain ⟨_, s₅, -, h⟩ := bind_ok h
  obtain ⟨m, s₆, hm, h⟩ := bind_ok h
  obtain ⟨_, s₇, -, h⟩ := bind_ok h
  obtain ⟨_, s₈, -, h⟩ := bind_ok h
  obtain ⟨u', s₉, hcall, h⟩ := bind_ok h
  obtain ⟨huse, rfl⟩ := callMember_ok hcall
  obtain ⟨rfl, -⟩ := pure_ok h
  exact ⟨m, method?_of_objectMethod? (demand_ok hm).1, huse, .optionalResult, id⟩

theorem callClassMethod_ok (h : callClassMethod Γ rec s = .ok t s') :
    ∃ l s₁, lookupOfClassMethod Γ s = .ok l s₁ ∧ ∃ m, Found Γ t l m := by
  obtain ⟨_, s₁, hemit, h⟩ := bind_ok h
  obtain ⟨⟨method, span⟩, s₂, hname, h⟩ := bind_ok h
  obtain ⟨⟨annotated, dynamic⟩, s₃, hannotation, h⟩ := bind_ok h
  refine ⟨_, s₃, (bind_of_ok hemit).trans ((bind_of_ok hname).trans
    ((bind_of_ok hannotation).trans rfl)), ?_⟩
  -- the warning is the only step that may be left out
  obtain ⟨s₄, h⟩ : ∃ s₄, (do
      let c ← demand (Γ.catalogue.classOf? annotated.unwrapped)
        (.typeMismatch s!"{Γ.typeName annotated.unwrapped} has no class methods") span
      emitWord (classWord c dynamic)
      let m ← demand (Γ.catalogue.classMethod? annotated.unwrapped method)
        (noSuchMethod Γ annotated.unwrapped method) span
      emitNumber m.slot
      callMember Γ rec m annotated.unwrapped span : Analysis Ty) s₄ = .ok t s' := by
    dsimp only at h
    split at h
    · obtain ⟨_, s₄, -, h⟩ := bind_ok h
      exact ⟨s₄, h⟩
    · exact ⟨s₃, h⟩
  obtain ⟨c, s₅, -, h⟩ := bind_ok h
  obtain ⟨_, s₆, -, h⟩ := bind_ok h
  obtain ⟨m, s₇, hm, h⟩ := bind_ok h
  obtain ⟨_, s₈, -, h⟩ := bind_ok h
  obtain ⟨huse, rfl⟩ := callMember_ok h
  exact ⟨m, (demand_ok hm).1, huse, .result, id⟩

theorem callSuperMethod_ok (h : callSuperMethod Γ rec span s = .ok t s') :
    ∃ l s₁, lookupOfSuperMethod Γ span s = .ok l s₁ ∧ ∃ m, Found Γ t l m := by
  obtain ⟨⟨method, methodSpan⟩, s₁, hname, h⟩ := bind_ok h
  obtain ⟨_, s₂, hstatic, h⟩ := bind_ok h
  obtain ⟨-, rfl⟩ := require_ok hstatic
  obtain ⟨parent, s₃, hparent, h⟩ := bind_ok h
  refine ⟨_, s₃, (bind_of_ok hname).trans ((bind_of_ok hparent).trans rfl), ?_⟩
  obtain ⟨_, s₄, -, h⟩ := bind_ok h
  obtain ⟨_, s₅, -, h⟩ := bind_ok h
  obtain ⟨m, s₆, hm, h⟩ := bind_ok h
  obtain ⟨_, s₇, -, h⟩ := bind_ok h
  obtain ⟨_, s₈, -, h⟩ := bind_ok h
  obtain ⟨huse, rfl⟩ := callMember_ok h
  exact ⟨m, (demand_ok hm).1, huse, .result, fun _ ↦ rfl⟩

theorem captureMethod_ok (h : captureMethod Γ rec s = .ok t s') :
    ∃ l s₁, lookupOfCapture Γ rec s = .ok l s₁ ∧ ∃ m, Found Γ t l m := by
  obtain ⟨⟨method, span⟩, s₁, hname, h⟩ := bind_ok h
  obtain ⟨_, s₂, hemit, h⟩ := bind_ok h
  obtain ⟨⟨receiver, receiverSpan⟩, s₃, hoperand, h⟩ := bind_ok h
  refine ⟨_, s₃, (bind_of_ok hname).trans ((bind_of_ok hemit).trans
    ((bind_of_ok hoperand).trans rfl)), ?_⟩
  obtain ⟨_, s₄, -, h⟩ := bind_ok h
  obtain ⟨m, s₅, hm, h⟩ := bind_ok h
  obtain ⟨_, s₆, -, h⟩ := bind_ok h
  obtain ⟨_, s₇, haccess, h⟩ := bind_ok h
  obtain ⟨rfl, -⟩ := pure_ok h
  exact ⟨m, method?_of_objectMethod? (demand_ok hm).1, requireAccess_ok haccess, .bound, id⟩

theorem instantiate_ok (h : instantiate Γ rec span s = .ok t s') :
    ∃ l s₁, lookupOfInstantiation Γ span s = .ok l s₁ ∧ ∃ m, Found Γ t l m := by
  obtain ⟨_, s₁, hemit, h⟩ := bind_ok h
  obtain ⟨⟨u, dynamic⟩, s₂, hannotation, h⟩ := bind_ok h
  obtain ⟨c, s₃, hclass, h⟩ := bind_ok h
  obtain ⟨_, s₄, hoptional, h⟩ := bind_ok h
  obtain ⟨-, rfl⟩ := require_ok hoptional
  obtain ⟨_, s₅, hword, h⟩ := bind_ok h
  obtain ⟨⟨initializer, initializerSpan⟩, s₆, hname, h⟩ := bind_ok h
  refine ⟨_, s₆, (bind_of_ok hemit).trans ((bind_of_ok hannotation).trans
    ((bind_of_ok hclass).trans ((bind_of_ok hword).trans ((bind_of_ok hname).trans rfl)))), ?_⟩
  obtain ⟨m, s₇, hm, h⟩ := bind_ok h
  obtain ⟨_, s₈, -, h⟩ := bind_ok h
  obtain ⟨_, s₉, -, h⟩ := bind_ok h
  obtain ⟨_, s₁₀, haccess, h⟩ := bind_ok h
  obtain ⟨_, s₁₁, -, h⟩ := bind_ok h
  obtain ⟨rfl, -⟩ := pure_ok h
  obtain ⟨_, hid, -⟩ := Option.bind_eq_some_iff.mp (demand_ok hclass).1
  exact ⟨m, (demand_ok hm).1, requireAccess_ok haccess, .created (Option.isSome_of_eq_some hid),
    id⟩

theorem superInitializer_ok (h : superInitializer Γ rec span s = .ok t s') :
    ∃ l s₁, lookupOfSuperInitializer Γ span s = .ok l s₁ ∧ ∃ m, Found Γ t l m := by
  obtain ⟨_, s₁, hinitializer, h⟩ := bind_ok h
  obtain ⟨-, rfl⟩ := require_ok hinitializer
  obtain ⟨parent, s₂, hparent, h⟩ := bind_ok h
  -- neither the frame nor the check of the fields changes anything before the opcode
  obtain ⟨f, s₃, hframe, h⟩ := bind_ok h
  cases hframe
  obtain ⟨_, s₄, honce, h⟩ := bind_ok h
  obtain ⟨-, rfl⟩ := require_ok honce
  obtain ⟨f, s₅, hframe, h⟩ := bind_ok h
  cases hframe
  obtain ⟨_, s₆, hdepth, h⟩ := bind_ok h
  obtain ⟨-, rfl⟩ := require_ok hdepth
  obtain ⟨_, s₇, hcomplete, h⟩ := bind_ok h
  obtain ⟨rfl, -⟩ := requireComplete_ok hcomplete
  obtain ⟨_, s₈, hemit, h⟩ := bind_ok h
  obtain ⟨_, s₉, hindex, h⟩ := bind_ok h
  obtain ⟨⟨initializer, initializerSpan⟩, s₁₀, hname, h⟩ := bind_ok h
  refine ⟨_, s₁₀, (bind_of_ok hparent).trans ((bind_of_ok hemit).trans
    ((bind_of_ok hindex).trans ((bind_of_ok hname).trans rfl))), ?_⟩
  obtain ⟨m, s₁₁, hm, h⟩ := bind_ok h
  obtain ⟨_, s₁₂, -, h⟩ := bind_ok h
  obtain ⟨_, s₁₃, haccess, h⟩ := bind_ok h
  obtain ⟨_, s₁₄, -, h⟩ := bind_ok h
  obtain ⟨_, s₁₅, -, h⟩ := bind_ok h
  obtain ⟨rfl, -⟩ := pure_ok h
  exact ⟨m, (demand_ok hm).1, requireAccess_ok haccess, .nothingness, fun _ ↦ rfl⟩

/-- A construct that is accepted gets past its lookup, and if it refers to a procedure, it finds a
member that the body may use. -/
theorem construct_ok {token : Token} {symbol : Symbol} {hint : Option Ty}
    (h : construct Γ rec token symbol hint s = .ok t s') :
    ∃ l? s₁, lookup? Γ rec symbol token.span s = .ok l? s₁ ∧ ∀ l ∈ l?, ∃ m, Found Γ t l m := by
  have single {x : Analysis Lookup} (hx : ∃ l s₁, x s = .ok l s₁ ∧ ∃ m, Found Γ t l m) :
      ∃ l? s₁, (some <$> x) s = .ok l? s₁ ∧ ∀ l ∈ l?, ∃ m, Found Γ t l m := by
    obtain ⟨l, s₁, hlookup, hfound⟩ := hx
    refine ⟨some l, s₁, (bind_of_ok hlookup).trans rfl, ?_⟩
    rintro _ ⟨⟩
    exact hfound
  unfold construct at h
  unfold lookup?
  cases hc : Construct.ofSymbol symbol
  case method method =>
    simp only [hc] at h
    exact call_ok h
  case optionalChain =>
    simp only [hc] at h
    exact single (optionalChain_ok h)
  case classMethod =>
    simp only [hc] at h
    exact single (callClassMethod_ok h)
  case superMethod =>
    simp only [hc] at h
    exact single (callSuperMethod_ok h)
  case captureMethod =>
    simp only [hc] at h
    exact single (captureMethod_ok h)
  case instantiate =>
    simp only [hc] at h
    exact single (instantiate_ok h)
  case superInitializer =>
    simp only [hc] at h
    exact single (superInitializer_ok h)
  all_goals exact ⟨none, s, rfl, nofun⟩

/-- **Accepted references.** An expression that is accepted gets past its lookup, and if it refers
to a procedure, it finds a member that the body may use. -/
theorem exists_found {token : Token} {hint : Option Ty}
    (h : expressionStep rec Γ token hint s = .ok t s') :
    ∃ l? s₁, Query.lookup? rec ⟨Γ, token, hint, s⟩ s = .ok l? s₁
      ∧ ∀ l ∈ l?, ∃ m, Found Γ t l m := by
  obtain ⟨_, s₁, hline, h⟩ := bind_ok h
  cases hlexeme : token.lexeme
  case identifier symbol =>
    have hsymbol : token.identifier? = some symbol := by rw [Token.identifier?, hlexeme]
    simp only [hlexeme] at h
    split at h
    · next hreturn =>
      obtain ⟨_, s₂, hframe, h⟩ := bind_ok h
      obtain ⟨l?, s₃, hlookup, hfound⟩ := construct_ok h
      refine ⟨l?, s₃, (bind_of_ok hline).trans ?_, hfound⟩
      simp only [hsymbol, if_pos hreturn]
      exact (bind_of_ok hframe).trans hlookup
    · next hreturn =>
      obtain ⟨l?, s₃, hlookup, hfound⟩ := construct_ok h
      refine ⟨l?, s₃, (bind_of_ok hline).trans ?_, hfound⟩
      simp only [hsymbol, if_neg hreturn]
      exact hlookup
  all_goals
    refine ⟨none, s₁, (bind_of_ok hline).trans ?_, fun l hl ↦ absurd hl (Option.not_mem_none l)⟩
    simp only [Token.identifier?, hlexeme]
    rfl

end

end Analysis

end Pictograph
