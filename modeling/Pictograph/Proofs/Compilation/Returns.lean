import Pictograph.Proofs.Compilation.Emitted

/-!
# Returns in accepted bodies

A procedure and a closure with a return type have to return. The analysis accepts a return as a
statement only, and asks for one behind which no block has ended. The first makes the accepted code
right: where there is a return type a return stands in the body itself, outside all branches and
loops, so every run to the end of the frame passes it. The second makes the analysis too strict: the
end of a block lowers the flag again, so a body that has returned for certain is rejected if a
branch or a loop is analysed behind its last return.

## Main definitions

* `CodeFrame.ObeysResult`: what the returns in the code of a frame have to do with its return type.

## Main results

* `returns_obey_results`: the frames of accepted bodies return as their return types ask.
* `body_missingReturn_iff`: which bodies are rejected at their end for a missing return.
* `return_forgotten_behind_block`: one of them returns for certain.
-/

namespace Pictograph

/-- The returns of a frame and its return type go together: without a return type there is none,
otherwise one of them is passed for certain, and each of them is a statement. -/
structure CodeFrame.ObeysResult (f : CodeFrame) (t : Ty) : Prop where
  /-- Without a return type all returns are those of closures. -/
  silent : t.isNothingness → ∀ l ∈ Outline.survey f.code f.offset, l.op = .returning → l.inClosure
  /-- With a return type one of the items of the frame is a return, outside all branches and
  loops. -/
  certain : t.isNothingness = false → ∃ item ∈ f.code, item.isReturn
  /-- With a return type every run executes a return. -/
  passed : t.isNothingness = false → ∀ τ, Outline.Runs f.code f.offset τ →
    ∃ i, .done i ∈ τ ∧ i.op = .returning
  /-- Every return is the first word of a statement of the frame or of a block in it. -/
  statements : ∀ l ∈ Outline.survey f.code f.offset, l.op = .returning → l.inClosure = false →
    IsStatement (Outline.statements f.code f.offset) l.offset

/-- What the analysis of a frame makes sure of is all that its returns have to obey. -/
theorem Outline.ReturnsAs.obeysResult {f : CodeFrame} {t : Ty} {returns : Nat → Ty → Prop}
    (h : Outline.ReturnsAs t f.code f.offset)
    (hp : Outline.ReturnsProperly returns f.code f.offset) : f.ObeysResult t where
  silent ht l hl hop := by
    by_contra hc
    exact h.silent ht l hl hop (eq_false_of_ne_true hc)
  certain := h.certain
  passed ht _ hτ := Outline.exists_return_of_runs (h.certain ht) hτ
  statements := Outline.ownReturns f.code hp

namespace Sample

/-- A class 🐴 with a method 🐾 that returns an integer. -/
def teller : ClassDeclaration where
  space := Vocabulary.defaultNamespace
  name := ⟨0x1F434⟩
  methods := [{ symbol := ⟨0x1F43E⟩, result := .integer }]

/-- The catalogue of this class. -/
def tellerCatalogue : Catalogue := Catalogue.empty.addIfPossible (.ofClass teller)

/-- The registered class 🐴. -/
def tellerClass : Class := (tellerCatalogue.class? teller.typeId).get (by decide +kernel)

/-- The method 🐾 of 🐴. -/
def tell : Member := tellerClass.methods.head (by decide +kernel)

/-- A body that returns in a branch and at its end, `🍊 👍 🍇 🍎 2 🍉 🍎 1 🍉`. -/
def returnTwice : List Token :=
  [ask .ifBranch, word (.boolean true), ask .blockOpen, ask .returning, word (.integer 2),
    ask .blockClose, ask .returning, word (.integer 1), ask .blockClose]

/-- A body with an empty branch behind its return, `🍎 1 🍊 👍 🍇 🍉 🍉`. -/
def branchBehindReturn : List Token :=
  [ask .returning, word (.integer 1), ask .ifBranch, word (.boolean true), ask .blockOpen,
    ask .blockClose, ask .blockClose]

end Sample

/-! ## Accepted bodies -/

/-- The closure at an offset has one return type. -/
def ReturnsOnly (answered : Query → State → Prop) (offset : Nat) (t : Ty) : Prop :=
  ∀ t', ReturnsAt answered offset t' ↔ t' = t

/-- **Accepted bodies return as their return types ask.** This holds of the frame of the procedure,
unless it is an initializer, and of the frames of all closures in it. -/
theorem returns_obey_results {cat : Catalogue} {options : Options} {session session' : Session}
    {c : Class} {m : Member} {tokens : List Token} {record : Record} (hm : m.isNative = false)
    (h : compile cat options session c m tokens = (.ok record, session')) :
    ∃ o, IsOnlyOutline (AnsweredIn cat options session c m tokens) o record.code
      ∧ (m.kind ≠ .initializer → CodeFrame.ObeysResult ⟨m.arguments.length, 0, o⟩ m.result)
      ∧ ∀ f ∈ Outline.closures o 0, ∃ k t, f.offset = k + 3
        ∧ ReturnsOnly (AnsweredIn cat options session c m tokens) k t ∧ f.ObeysResult t := by
  obtain ⟨o, c₀, c₁, he⟩ := compile_emitted hm h
  refine ⟨o, he.isOutline.isOnly h, fun hk ↦ ?_, fun f hf ↦ ?_⟩
  · have hΓ : (Setting.ofMember cat options c m).initializer? = none := if_neg hk
    have hr := he.emits.returnsAs hΓ he.returnsProperly he.hasReturned he.accepts.hasReturned
    exact hr.obeysResult he.returnsProperly
  · obtain ⟨⟨k, t, hk, ht, hr⟩, hp⟩ := Outline.closures_return o he.returnsProperly f hf
    refine ⟨k, t, hk, fun t' ↦ ⟨fun ht' ↦ returnsAt_unique h ht' ht, fun heq ↦ heq ▸ ht⟩, ?_⟩
    exact hr.obeysResult hp

/-- A body that returns in a branch and at its end is accepted, and obeys its return type. -/
theorem returns_obey_results_sample :
    Sample.tell.isNative = false
    ∧ ∃ record session', compile Sample.tellerCatalogue {} .start Sample.tellerClass Sample.tell
        Sample.returnTwice = (.ok record, session')
      ∧ ∃ o, IsOnlyOutline (AnsweredIn Sample.tellerCatalogue {} .start Sample.tellerClass
          Sample.tell Sample.returnTwice) o record.code
        ∧ (Sample.tell.kind ≠ .initializer →
          CodeFrame.ObeysResult ⟨Sample.tell.arguments.length, 0, o⟩ Sample.tell.result)
        ∧ ∀ f ∈ Outline.closures o 0, ∃ k t, f.offset = k + 3
          ∧ ReturnsOnly (AnsweredIn Sample.tellerCatalogue {} .start Sample.tellerClass Sample.tell
            Sample.returnTwice) k t ∧ f.ObeysResult t := by
  have hm : Sample.tell.isNative = false := by decide +kernel
  have hcode : listing? Sample.tellerCatalogue {} .start Sample.tellerClass Sample.tell
      Sample.returnTwice = some (Outline.entries
        [.ifChain [.plain (.boolean true) [] []] [.plain .returning [] [.plain .integer [2] []]] [],
          .plain .returning [] [.plain .integer [1] []]]) := by
    decide +kernel
  obtain ⟨record, session', h, -⟩ := exists_record hcode
  exact ⟨hm, record, session', h, returns_obey_results hm h⟩

/-! ## Rejected bodies -/

namespace Analysis

variable {Γ : Setting} {arguments : List Argument} {captured : List Variable} {outerSlots : Nat}

/-- The statements of a body emit an outline, and the flag at the end follows from it. -/
theorem returned_bodyToEnd {π : Notes} {rec : Recursion} {s s' : State}
    {first : Nat} {ending : Span} (hΓ : Γ.initializer? = none) (hs : s.frame.hasReturned = false)
    (h : Emitting π rec (fun r ↦ bodyToEnd Γ r arguments captured outerSlots) s (first, ending)
      s') :
    ∃ o, s'.listing = s.listing ++ Outline.entries o ∧ Outline.Follows π.toPlaces o s.offset
      ∧ (s'.frame.hasReturned ↔ Outline.EndsReturned o)
      ∧ (Γ.options.compilesDeadCode = false → (∃ item ∈ o, item.isReturn) →
        Outline.EndsReturned o) := by
  obtain ⟨span, s₁, h₁, h⟩ := h.bind
  obtain ⟨_, s₂, h₂, h⟩ := h.bind
  obtain ⟨first', s₃, h₃, h⟩ := h.bind
  obtain ⟨ending', s₄, h₄, h⟩ := h.bind
  obtain ⟨-, rfl⟩ := pure_ok h.const
  cases h₁.const
  obtain ⟨vs, hvs, -⟩ := declares_arguments h₂.const
  obtain ⟨vs', hvs', -⟩ := declares_takeOver h₃.const
  have hdecl := hvs.trans hvs'
  obtain ⟨o, ho, hskip⟩ := writes_bodyStatements h₄
  have hflag : s₃.frame.hasReturned = false :=
    (congrArg Context.hasReturned hdecl.context).trans hs
  have hiff : s₄.frame.hasReturned ↔ Outline.EndsReturned o := by
    have he : s₄.frame.hasReturned = Outline.returned o s₃.frame.hasReturned :=
      ho.emits.returned hΓ
    rw [he, hflag, Outline.returned_iff ho.expressions.returnsProperly, or_iff_left]
    exact fun h ↦ nomatch h.1
  refine ⟨o, ?_, State.offset_congr hdecl.listing ▸ ho.expressions.follows, hiff, fun hd hr ↦ ?_⟩
  · rw [ho.listing, hdecl.listing]
  · exact hiff.mp ((hskip hΓ hd rfl fun h ↦ nomatch hflag.symm.trans h).2 hr)

/-- What the analysis of a body with a return type makes of its code. The outline is that of the
code, and `verdict` is how the analysis ended. -/
structure JudgesReturns (Γ : Setting) (o : Outline) (ending : Span)
    (verdict : EStateM.Result Fault State Summary) : Prop where
  /-- The body is rejected for a missing return if no item is a return that no block follows. -/
  rejected : (∃ s, verdict = .error (Cause.missingReturn.at ending) s) ↔ ¬ Outline.EndsReturned o
  /-- Otherwise it is accepted. -/
  accepted : Outline.EndsReturned o → ∃ summary s, verdict = .ok summary s
  /-- If dead code is left out, any return among the items will do. -/
  skipping : Γ.options.compilesDeadCode = false → (∃ item ∈ o, item.isReturn) →
    Outline.EndsReturned o

/-- An outline is that of the code written between two states, given which expressions were
answered. -/
structure IsWritten (answered : Query → State → Prop) (s s' : State) (o : Outline) : Prop where
  listing : s'.listing = s.listing ++ Outline.entries o
  follows : Outline.Follows (.ofAnalysis answered) o s.offset

/-- **Which bodies are rejected for a missing return.** Let a body with a return type, of a
procedure or a closure, be analysed up to its end. It is rejected for a missing return exactly if
no item of its code is a return or a branch or a loop stands behind the last one. The items are
those of the only outline that follows the expressions of the body. -/
theorem body_missingReturn_iff {fuel : Nat} {s s₁ : State} {first : Nat} {ending : Span}
    (hΓ : Γ.initializer? = none) (hr : Γ.result.isNothingness = false)
    (hs : s.frame.hasReturned = false)
    (h : bodyToEnd Γ (expression fuel) arguments captured outerSlots s = .ok (first, ending) s₁) :
    ∃ o, (∀ o', IsWritten (Answered (fun rec ↦ bodyToEnd Γ rec arguments captured outerSlots) fuel
        s) s s₁ o' ↔ o' = o)
      ∧ JudgesReturns Γ o ending
        (body Γ (expression fuel) arguments captured outerSlots s) := by
  have hm := Traverses.bodyToEnd (Γ := Γ) (goesOnward_expression fuel) arguments captured outerSlots
  obtain ⟨o, hl, hf, hflag, hskip⟩ := returned_bodyToEnd (π := .ofAnalysis (Answered _ fuel s)) hΓ
    hs (hm.emitting h fun _ _ _ hq hanswer ↦ (Reaches.asked hq).wrote hanswer)
  obtain ⟨session, hleave⟩ := exists_leaveBody hΓ first outerSlots ending s₁
  have hbody := (congrFun (body_eq _) s).trans ((bind_of_ok h).trans hleave)
  rw [hr, Bool.false_or] at hbody
  refine ⟨o, fun o' ↦ ⟨fun ho' ↦ ?_, fun heq ↦ heq ▸ ⟨hl, hf⟩⟩,
    ⟨fun ⟨t, ht⟩ he ↦ ?_, fun he ↦ ?_⟩, fun he ↦ ?_, hskip⟩
  · exact ho'.follows.eq_of_entries_eq (Places.functional_of_answered hm h) hf
      (List.append_cancel_left (ho'.listing.symm.trans hl))
  · rw [hbody, if_pos (hflag.mpr he)] at ht
    cases ht
  · rw [if_neg (hflag.not.mpr he)] at hbody
    exact ⟨_, hbody⟩
  · rw [if_pos (hflag.mpr he)] at hbody
    exact ⟨_, _, hbody⟩

/-- A body that returns in a branch and at its end is analysed up to its end, and judged by its
code. -/
theorem body_missingReturn_sample :
    ∃ first ending s₁,
      (Setting.ofMember Sample.tellerCatalogue {} Sample.tellerClass
        Sample.tell).initializer? = none
      ∧ (Setting.ofMember Sample.tellerCatalogue {} Sample.tellerClass
        Sample.tell).result.isNothingness = false
      ∧ (State.start none .start Sample.returnTwice).frame.hasReturned = false
      ∧ bodyToEnd (.ofMember Sample.tellerCatalogue {} Sample.tellerClass Sample.tell)
        (expression 9) [] [] 0 (.start none .start Sample.returnTwice) = .ok (first, ending) s₁
      ∧ ∃ o, (∀ o', IsWritten (Answered (fun rec ↦ bodyToEnd (.ofMember Sample.tellerCatalogue
            {} Sample.tellerClass Sample.tell) rec [] [] 0) 9
            (.start none .start Sample.returnTwice))
          (.start none .start Sample.returnTwice) s₁ o' ↔ o' = o)
        ∧ JudgesReturns (.ofMember Sample.tellerCatalogue {} Sample.tellerClass Sample.tell) o
          ending
          (body (.ofMember Sample.tellerCatalogue {} Sample.tellerClass Sample.tell) (expression 9)
            [] [] 0 (.start none .start Sample.returnTwice)) := by
  have hΓ : (Setting.ofMember Sample.tellerCatalogue {} Sample.tellerClass
      Sample.tell).initializer? = none := by
    decide +kernel
  have hr : (Setting.ofMember Sample.tellerCatalogue {} Sample.tellerClass
      Sample.tell).result.isNothingness = false := by
    decide +kernel
  have hvalue : value? (bodyToEnd
      (.ofMember Sample.tellerCatalogue {} Sample.tellerClass Sample.tell) (expression 9) [] [] 0
      (.start none .start Sample.returnTwice)) = some (0, .nowhere) := by
    decide +kernel
  have h := eq_ok_of_value? hvalue
  exact ⟨_, _, _, hΓ, hr, rfl, h, body_missingReturn_iff hΓ hr rfl h⟩

end Analysis

/-- The body `🍎 1 🍊 👍 🍇 🍉 🍉` starts with a return, but it is rejected for a missing return. -/
theorem return_forgotten_behind_block :
    Sample.tell.kind ≠ .initializer ∧ Sample.tell.result.isNothingness = false
    ∧ Sample.branchBehindReturn.head? = some (Sample.ask .returning)
    ∧ (compile Sample.tellerCatalogue {} .start Sample.tellerClass Sample.tell
        Sample.branchBehindReturn).1 = .error (Cause.missingReturn.at .nowhere) := by
  decide +kernel

end Pictograph
