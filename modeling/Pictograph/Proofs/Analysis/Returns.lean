import Pictograph.Proofs.Analysis.Emission
import Pictograph.Proofs.Code.Returns

/-!
# Where an analysis expects returns

The analysis of a body keeps one flag about returns, which the blocks of the body share with it: a
return raises it, and the end of every block lowers it. A closure has a flag of its own. This module
shows that the flag follows the emitted code, and that nothing is returned where there is no return
type.

## Main results

* `Emits.returned`: the flag is a function of the emitted code.
* `Emits.silent`: without a return type no return is emitted.
* `Emits.returnsAs`: the code of a frame that passes the check at its end returns as its return type
  asks.
-/

namespace Pictograph

/-- The flag behind a piece of code, given the flag in front of it. -/
def Part.returned (b : Bool) : Part → Bool
  | .code o | .chain o _ _ => Outline.returned o b

namespace Emits

variable {π : Pins} {Γ : Setting} {part : Part} {k : Nat} {c c' : Context}

/-- In the rest of a chain the flag cannot be raised for good. -/
theorem returned_chain {rest : Outline} {reports : List (List Slot)} {isTotal : Bool}
    (h : Emits π Γ (.chain rest reports isTotal) k c c') : Outline.returned rest false = false := by
  cases h <;> rfl

/-- **The flag is a function of the code.** -/
theorem returned (h : Emits π Γ part k c c') (hΓ : Γ.initializer? = none) :
    c'.hasReturned = part.returned c.hasReturned := by
  induction h with
  | nil | load | step | declare | selfReference | chainEnd | otherwise | closure => rfl
  | append _ _ ih₁ ih₂ => rw [ih₂ hΓ, Part.returned, ih₁ hΓ, Part.returned, Part.returned,
      Outline.returned_append]
  | ordinary hop _ _ ih₁ ih₂ =>
    rw [ih₂ hΓ, Part.returned, ih₁ hΓ, Part.returned, Part.returned, Outline.returned_singleton,
      Item.returned, Opcode.ne_returning_of_isOrdinary hop, Bool.false_or]
  | introduce hop _ _ _ _ _ _ _ ih =>
    obtain rfl | rfl := hop <;> exact ih hΓ
  | assign _ _ _ _ _ ih => exact ih hΓ
  | superInitializer _ _ _ _ ih => exact ih hΓ
  | returning _ _ _ => rw [hΓ, Option.isNone_none, Bool.or_true]; rfl
  | @ifChain Γ k c c₁ c₂ c₃ reports isTotal condition body rest _ _ h₃ _ _ ih₃ =>
    -- behind the first block the flag is down, and the further branches leave it there
    have hc₃ : c₃.hasReturned = false := (ih₃ hΓ).trans h₃.returned_chain
    cases isTotal <;> exact hc₃
  | elseIf _ _ h₃ _ _ ih₃ => exact (ih₃ hΓ).trans h₃.returned_chain
  | repeatWhile => rfl
  | forIn => rfl

/-- The flag of an initializer stays down. -/
theorem unreturned (h : Emits π Γ part k c c') (hΓ : Γ.initializer?.isSome)
    (hc : c.hasReturned = false) : c'.hasReturned = false := by
  induction h with
  | nil | load | step | declare | selfReference | chainEnd | closure => exact hc
  | append _ _ ih₁ ih₂ => exact ih₂ hΓ (ih₁ hΓ hc)
  | ordinary _ _ _ ih₁ ih₂ => exact ih₂ hΓ (ih₁ hΓ hc)
  | introduce _ _ _ _ _ _ _ _ ih => exact ih hΓ hc
  | assign _ _ _ _ _ ih => exact ih hΓ hc
  | superInitializer _ _ _ _ ih => exact ih hΓ hc
  | @returning Γ k c c₁ o _ _ ih =>
    have hnone : Γ.initializer?.isNone = false := by
      rw [← Option.not_isSome, hΓ]
      rfl
    exact Bool.or_eq_false_iff.mpr ⟨ih hΓ hc, hnone⟩
  | @ifChain Γ k c c₁ c₂ c₃ reports isTotal condition body rest _ _ _ _ _ ih₃ =>
    -- the end of the first block lowers the flag
    have hc₃ : c₃.hasReturned = false := ih₃ hΓ rfl
    cases isTotal <;> exact hc₃
  | elseIf _ _ _ _ _ ih₃ => exact ih₃ hΓ rfl
  | otherwise | repeatWhile | forIn => rfl

/-- **Without a return type nothing is returned.** -/
theorem silent (h : Emits π Γ part k c c') (hΓ : Γ.initializer? = none)
    (hr : Γ.result.isNothingness) : OwnReturns (fun _ ↦ False) (part.survey k) := by
  induction h with
  | nil | declare | chainEnd => exact .nil
  | append _ _ ih₁ ih₂ =>
    rw [Part.survey, Outline.survey_append]
    exact (ih₁ hΓ hr).append (ih₂ hΓ hr)
  | @ordinary Γ k c c₁ c₂ op counted words receiver operands hop _ _ ih₁ ih₂ =>
    rw [Part.survey, Outline.survey_singleton]
    refine .cons (fun h ↦ ?_) (.enterOperand op ((ih₁ hΓ hr).append (ih₂ hΓ hr)))
    rw [show op = .returning from h] at hop
    cases hop
  | load | step | selfReference =>
    rw [Part.survey, Outline.survey_singleton]
    exact .cons (fun h ↦ by cases h) .nil
  | @introduce Γ k c c₁ op v e o hop _ _ _ _ _ _ _ ih =>
    rw [Part.survey, Outline.survey_singleton]
    obtain rfl | rfl := hop <;> exact .cons (fun h ↦ by cases h) (.enterOperand _ (ih hΓ hr))
  | assign _ _ _ _ _ ih | superInitializer _ _ _ _ ih =>
    rw [Part.survey, Outline.survey_singleton]
    exact .cons (fun h ↦ by cases h) (.enterOperand _ (ih hΓ hr))
  | returning hresult => cases (hresult hΓ).symm.trans hr
  | ifChain _ _ _ ih₁ ih₂ ih₃ =>
    rw [Part.survey, Outline.survey_singleton]
    exact .cons (fun h ↦ by cases h)
      (((ih₁ hΓ hr).append (ih₂ hΓ hr).enterBlock).append (ih₃ hΓ hr))
  | otherwise _ ih =>
    rw [Part.survey, Outline.survey_singleton]
    exact .cons (fun h ↦ by cases h) (ih hΓ hr).enterBlock
  | elseIf _ _ _ ih₁ ih₂ ih₃ =>
    rw [Part.survey, Outline.survey_singleton]
    exact .cons (fun h ↦ by cases h)
      (((ih₁ hΓ hr).enterCondition.append (ih₂ hΓ hr).enterBlock).append (ih₃ hΓ hr))
  | repeatWhile _ _ ih₁ ih₂ =>
    rw [Part.survey, Outline.survey_singleton]
    exact .cons (fun h ↦ by cases h) ((ih₁ hΓ hr).enterCondition.append (ih₂ hΓ hr).enterBlock)
  | forIn _ _ _ _ _ _ _ ih₁ ih₂ =>
    rw [Part.survey, Outline.survey_singleton]
    exact .cons (fun h ↦ by cases h) ((ih₁ hΓ hr).append (ih₂ hΓ hr).enterBlock)
  | closure =>
    rw [Part.survey, Outline.survey_singleton]
    exact .cons (fun h ↦ by cases h) (.closure _)

/-- **Accepted frames return as they should.** The code of a frame that starts with the flag down
and passes the check at its end returns as its return type asks. -/
theorem returnsAs {o : Outline} {returns : Nat → Ty → Prop} (h : Emits π Γ (.code o) k c c')
    (hΓ : Γ.initializer? = none) (hp : Outline.ReturnsProperly returns o k)
    (hc : c.hasReturned = false) (hc' : Γ.result.isNothingness = false → c'.hasReturned) :
    Outline.ReturnsAs Γ.result o k := by
  refine ⟨h.silent hΓ, fun hr ↦ ?_⟩
  have hflag := hc' hr
  rw [h.returned hΓ, hc] at hflag
  rcases (Outline.returned_iff hp).mp hflag with he | ⟨hf, -⟩
  · exact he.exists_return
  · cases hf

end Emits

end Pictograph
