import Pictograph.Proofs.Analysis.Emission

/-!
# Where the superclass is initialized

The analysis keeps track of superinitializers with a flag, which it raises behind the arguments, and
with the number of open blocks. This module says what that comes to in the emitted code: blocks and
closures hold no superinitializer, none follows a finished one, and there is exactly one apart from
those in the arguments of another. References to the instance in the code of the body itself stand
behind all of them.

## Method

Only the flag and the number of open blocks matter here, so emitted code is first reduced to a walk
over its instructions that knows nothing else. The statements about superinitializers are then
inductions over walks.

## Main results

* `Walk.no_superInitializer`: where no superinitializer can be.
* `Walk.outside`: superinitializers are outside of blocks and closures.
* `Walk.count_outer`: how many there are outside the arguments of others.
* `Walk.ordered`: references to the instance stand behind them.
* `Emits.walk`: emitted code is a walk.
-/

namespace Pictograph

/-! ## Walks -/

/-- A superinitializer that is not in the arguments of another. -/
def Located.isOuterSuper (l : Located) : Bool := l.op == .superInitializer && !l.inSuperArguments

/-- A way through the instructions of a body. It starts and ends with a superclass that was
initialized or not, at a number of open blocks, in a body that has to initialize the superclass or
in one that cannot. -/
inductive Walk : (initializes : Bool) → (depth : Nat) → Bool → List Located → Bool → Prop
  /-- No instruction. -/
  | nil {ini : Bool} {d b} : Walk ini d b [] b
  /-- One way and then another. -/
  | append {ini : Bool} {d b b₁ b₂ ls ls'} : Walk ini d b ls b₁ → Walk ini d b₁ ls' b₂ →
      Walk ini d b (ls ++ ls') b₂
  /-- An instruction of another kind. -/
  | other {ini : Bool} {d b i} (hs : i.op ≠ .superInitializer) (hr : i.op ≠ .selfReference) :
      Walk ini d b [.outermost i] b
  /-- A reference to the instance needs an initialized superclass. -/
  | selfReference {ini b : Bool} {d i} (hi : i.op = .selfReference) (hb : ini → b) :
      Walk ini d b [.outermost i] b
  /-- A superinitializer is allowed once and outside of blocks. The superclass counts as initialized
  behind the arguments. -/
  | superInitializer {b i ls} (hi : i.op = .superInitializer) : Walk true 0 false ls b →
      Walk true 0 false (.outermost i :: ls.map (·.enterOperand .superInitializer)) true
  /-- The operands of another instruction. -/
  | operand {ini : Bool} {d b b₁ ls op} (hop : op ≠ .superInitializer) : Walk ini d b ls b₁ →
      Walk ini d b (ls.map (·.enterOperand op)) b₁
  /-- A condition. -/
  | condition {ini : Bool} {d b b₁ ls} : Walk ini d b ls b₁ →
      Walk ini d b (ls.map (·.enterCondition)) b₁
  /-- A block. -/
  | block {ini : Bool} {d b b₁ ls} : Walk ini (d + 1) b ls b₁ →
      Walk ini d b (ls.map (·.enterBlock)) b₁
  /-- The body of a closure. -/
  | closure {ini : Bool} {d b b₁ ls} : Walk false 0 false ls b₁ →
      Walk ini d b (ls.map (·.enterClosure)) b

/-- All superinitializers in a survey have a property. -/
def Supers (P : Located → Prop) (ls : List Located) : Prop :=
  ∀ l ∈ ls, l.op = .superInitializer → P l

namespace Supers

variable {P P' : Located → Prop} {ls ls' : List Located}

theorem nil : Supers P [] := fun _ h ↦ nomatch h

theorem append (h : Supers P ls) (h' : Supers P ls') : Supers P (ls ++ ls') := by
  intro l hl
  rcases List.mem_append.mp hl with hl | hl
  · exact h l hl
  · exact h' l hl

theorem cons {l : Located} (hl : l.op = .superInitializer → P l) (h : Supers P ls) :
    Supers P (l :: ls) := by
  intro l' hl'
  rcases List.mem_cons.mp hl' with rfl | hl'
  · exact hl
  · exact h l' hl'

theorem map {f : Located → Located} (h : Supers P ls)
    (hf : ∀ l, (f l).op = l.op) (hP : ∀ l, P l → P' (f l)) : Supers P' (ls.map f) := by
  intro l hl hs
  obtain ⟨l', hm, rfl⟩ := List.mem_map.mp hl
  exact hP l' (h l' hm (hf l' ▸ hs))

end Supers

/-- No reference to the instance stands in front of a superinitializer, closures left out. -/
def Ordered (ls : List Located) : Prop :=
  ls.Pairwise fun l l' ↦ l.op = .selfReference → l.inClosure = false → l'.op ≠ .superInitializer

namespace Walk

variable {ini : Bool} {d : Nat} {b b' : Bool} {ls : List Located}

theorem cons {i : Instruction} (hs : i.op ≠ .superInitializer) (hr : i.op ≠ .selfReference)
    (h : Walk ini d b ls b') : Walk ini d b (.outermost i :: ls) b' :=
  Walk.append (.other hs hr : Walk ini d b [_] b) h

/-- The superclass stays initialized. -/
theorem mono (h : Walk ini d b ls b') (hb : b) : b' := by
  induction h with
  | nil | other | selfReference | closure => exact hb
  | append _ _ ih₁ ih₂ => exact ih₂ (ih₁ hb)
  | superInitializer => rfl
  | operand _ _ ih | condition _ ih | block _ ih => exact ih hb

/-- **Where no superinitializer can be**: outside the initializers of subclasses, behind another one
and inside blocks. -/
theorem no_superInitializer (h : Walk ini d b ls b') (hi : ini = false ∨ b ∨ d ≠ 0) :
    Supers (fun _ ↦ False) ls := by
  induction h with
  | nil => exact .nil
  | append h₁ _ ih₁ ih₂ => exact (ih₁ hi).append (ih₂ (hi.imp_right (.imp_left h₁.mono)))
  | other hs _ => exact .cons hs .nil
  | selfReference hr _ => exact .cons (fun hs ↦ nomatch hr.symm.trans hs) .nil
  | superInitializer => simp at hi
  | operand _ _ ih => exact (ih hi).map (f := Located.enterOperand _) (fun _ ↦ rfl) fun _ h ↦ h
  | condition _ ih => exact (ih hi).map (f := Located.enterCondition) (fun _ ↦ rfl) fun _ h ↦ h
  | block _ ih =>
    exact (ih (.inr (.inr (Nat.succ_ne_zero _)))).map (f := Located.enterBlock) (fun _ ↦ rfl)
      fun _ h ↦ h
  | closure _ ih =>
    exact (ih (.inl rfl)).map (f := Located.enterClosure) (fun _ ↦ rfl) fun _ h ↦ h

/-- **Superinitializers are outside of blocks and closures.** -/
theorem outside (h : Walk ini d b ls b') :
    Supers (fun l ↦ l.inBlock = false ∧ l.inClosure = false) ls := by
  induction h with
  | nil => exact .nil
  | append _ _ ih₁ ih₂ => exact ih₁.append ih₂
  | other | selfReference => exact .cons (fun _ ↦ ⟨rfl, rfl⟩) .nil
  | superInitializer _ _ ih =>
    exact .cons (fun _ ↦ ⟨rfl, rfl⟩)
      (ih.map (f := Located.enterOperand _) (fun _ ↦ rfl) fun _ h ↦ h)
  | operand _ _ ih => exact ih.map (f := Located.enterOperand _) (fun _ ↦ rfl) fun _ h ↦ h
  | condition _ ih => exact ih.map (f := Located.enterCondition) (fun _ ↦ rfl) fun _ h ↦ h
  | block h _ =>
    exact (h.no_superInitializer (.inr (.inr (Nat.succ_ne_zero _)))).map (f := Located.enterBlock)
      (fun _ ↦ rfl) fun _ h ↦ h.elim
  | closure h _ =>
    exact (h.no_superInitializer (.inl rfl)).map (f := Located.enterClosure) (fun _ ↦ rfl)
      fun _ h ↦ h.elim

theorem countP_map {f : Located → Located} (hf : ∀ l, (f l).isOuterSuper = l.isOuterSuper)
    (ls : List Located) : (ls.map f).countP (·.isOuterSuper) = ls.countP (·.isOuterSuper) := by
  rw [List.countP_map]
  exact List.countP_congr fun l _ ↦ by rw [Function.comp_apply, hf]

theorem countP_eq_zero (h : Supers (fun _ ↦ False) ls) : ls.countP (·.isOuterSuper) = 0 := by
  rw [List.countP_eq_zero]
  intro l hl hs
  obtain ⟨hop, -⟩ := Bool.and_eq_true_iff.mp hs
  exact h l hl (eq_of_beq hop)

/-- **Superinitializers that count.** Outside the arguments of others there is one if the superclass
gets initialized and none if not. -/
theorem count_outer (h : Walk ini d b ls b') :
    ls.countP (·.isOuterSuper) + b.toNat = b'.toNat := by
  induction h with
  | nil => exact Nat.zero_add _
  | append _ _ ih₁ ih₂ => rw [List.countP_append]; omega
  | @other ini d b i hs _ =>
    have hf : (Located.outermost i).isOuterSuper = false := by
      rw [Located.isOuterSuper, Bool.and_eq_false_iff]
      exact .inl (beq_eq_false_iff_ne.mpr hs)
    rw [List.countP_singleton, hf]
    exact Nat.zero_add _
  | @selfReference ini d b i hr _ =>
    have hf : (Located.outermost i).isOuterSuper = false := by
      rw [Located.isOuterSuper, Bool.and_eq_false_iff]
      exact .inl (beq_eq_false_iff_ne.mpr fun hs ↦ nomatch hr.symm.trans hs)
    rw [List.countP_singleton, hf]
    exact Nat.zero_add _
  | @superInitializer b i ls hi _ _ =>
    -- superinitializers in the arguments may be there, but they do not count
    have hz : (ls.map (·.enterOperand .superInitializer)).countP (·.isOuterSuper) = 0 := by
      rw [List.countP_eq_zero]
      intro l hl
      obtain ⟨l', -, rfl⟩ := List.mem_map.mp hl
      simp [Located.isOuterSuper, Located.enterOperand]
    have ht : (Located.outermost i).isOuterSuper = true := by
      rw [Located.isOuterSuper, Bool.and_eq_true_iff]
      exact ⟨beq_iff_eq.mpr hi, rfl⟩
    rw [List.countP_cons_of_pos ht, hz]
    rfl
  | @operand ini d b b₁ ls op hop _ ih =>
    rw [countP_map (f := Located.enterOperand op) _ ls]
    · exact ih
    · intro l
      have hne : (op == .superInitializer) = false := beq_eq_false_iff_ne.mpr hop
      simp [Located.isOuterSuper, Located.enterOperand, hne]
  | @condition ini d b b₁ ls _ ih => rwa [countP_map (f := Located.enterCondition) (fun _ ↦ rfl)]
  | @block ini d b b₁ ls _ ih => rwa [countP_map (f := Located.enterBlock) (fun _ ↦ rfl)]
  | @closure ini d b b₁ ls h _ =>
    rw [countP_map (f := Located.enterClosure) (fun _ ↦ rfl),
      countP_eq_zero (h.no_superInitializer (.inl rfl)), Nat.zero_add]

/-- A reference to the instance in the code of the body itself shows that the superclass was
initialized before. -/
theorem called_of_selfReference (h : Walk ini d b ls b') (hi : ini) :
    ∀ l ∈ ls, l.op = .selfReference → l.inClosure = false → b' := by
  induction h with (intro l hl hr hc)
  | nil => exact nomatch hl
  | append _ h₂ ih₁ ih₂ =>
    rcases List.mem_append.mp hl with hl | hl
    · exact h₂.mono (ih₁ hi l hl hr hc)
    · exact ih₂ hi l hl hr hc
  | other _ hr' =>
    obtain rfl := List.mem_singleton.mp hl
    exact absurd hr hr'
  | selfReference _ hb => exact hb hi
  | superInitializer => rfl
  | operand _ _ ih | condition _ ih | block _ ih =>
    obtain ⟨l', hm, rfl⟩ := List.mem_map.mp hl
    exact ih hi l' hm hr hc
  | closure =>
    obtain ⟨l', -, rfl⟩ := List.mem_map.mp hl
    cases hc

theorem ordered_map {f : Located → Located} (h : Ordered ls)
    (hf : ∀ l, (f l).op = l.op ∧ (f l).inClosure = l.inClosure) : Ordered (ls.map f) := by
  refine List.pairwise_map.mpr (h.imp fun {l l'} hl hr hc ↦ ?_)
  rw [(hf l').1]
  exact hl ((hf l).1 ▸ hr) ((hf l).2 ▸ hc)

/-- **References to the instance stand behind the superinitializers.** -/
theorem ordered (h : Walk ini d b ls b') (hi : ini) : Ordered ls := by
  induction h with
  | nil => exact .nil
  | append h₁ h₂ ih₁ ih₂ =>
    refine List.pairwise_append.mpr ⟨ih₁ hi, ih₂ hi, fun l hl l' hl' hr hc ↦ ?_⟩
    -- where the instance was referred to, the superclass is initialized, so no other one follows
    exact h₂.no_superInitializer (.inr (.inl (h₁.called_of_selfReference hi l hl hr hc))) l' hl'
  | other | selfReference => exact List.pairwise_singleton _ _
  | superInitializer hs _ ih =>
    refine List.pairwise_cons.mpr ⟨fun l _ hr ↦ (nomatch hs.symm.trans hr), ?_⟩
    exact ordered_map (f := Located.enterOperand _) (ih hi) fun _ ↦ ⟨rfl, rfl⟩
  | @operand _ _ _ _ _ op _ _ ih =>
    exact ordered_map (f := Located.enterOperand op) (ih hi) fun _ ↦ ⟨rfl, rfl⟩
  | condition _ ih =>
    exact ordered_map (f := Located.enterCondition) (ih hi) fun _ ↦ ⟨rfl, rfl⟩
  | block _ ih => exact ordered_map (f := Located.enterBlock) (ih hi) fun _ ↦ ⟨rfl, rfl⟩
  | closure =>
    refine List.pairwise_map.mpr (List.pairwise_of_forall fun l l' _ hc ↦ ?_)
    cases hc

end Walk

/-! ## Emitted code -/

/-- A walk inside a block, as one outside of it. -/
theorem walk_block {ini b : Bool} {d : Nat} {c : Context} {ls : List Located}
    (hd : c.flowDepth = d) (h : Walk ini (c.flowDepth + 1) c.calledSuper ls b) :
    Walk ini d c.calledSuper (ls.map (·.enterBlock)) b := by
  subst hd
  exact .block h

namespace Emits

variable {π : Pins} {Γ : Setting} {part : Part} {k : Nat} {c c' : Context}

/-- **Emitted code is a walk.** -/
theorem walk (h : Emits π Γ part k c c') :
    Walk Γ.initializesSuper c.flowDepth c.calledSuper (part.survey k) c'.calledSuper := by
  induction h with
  | nil | declare | chainEnd => exact .nil
  | append h₁ _ ih₁ ih₂ =>
    rw [Part.survey, Outline.survey_append]
    rw [h₁.grows.flowDepth] at ih₂
    exact .append ih₁ ih₂
  | @ordinary Γ k c c₁ c₂ op counted words receiver operands hop h₁ _ ih₁ ih₂ =>
    rw [Part.survey, Outline.survey_singleton]
    rw [h₁.grows.flowDepth] at ih₂
    have hs : op ≠ .superInitializer := by rintro rfl; cases hop
    have hr : op ≠ .selfReference := by rintro rfl; cases hop
    exact .cons hs hr (.operand hs (.append ih₁ ih₂))
  | load =>
    rw [Part.survey, Outline.survey_singleton]
    exact .other (fun h ↦ nomatch h) fun h ↦ nomatch h
  | step =>
    rw [Part.survey, Outline.survey_singleton]
    exact .other (fun h ↦ nomatch h) fun h ↦ nomatch h
  | @introduce Γ k c c₁ op v e o hop _ _ _ _ _ _ _ ih =>
    rw [Part.survey, Outline.survey_singleton]
    have hs : op ≠ .superInitializer := by rintro rfl; rcases hop with h | h <;> cases h
    have hr : op ≠ .selfReference := by rintro rfl; rcases hop with h | h <;> cases h
    exact .cons hs hr (.operand hs ih)
  | assign _ _ _ _ _ ih =>
    rw [Part.survey, Outline.survey_singleton]
    exact .cons (fun h ↦ nomatch h) (fun h ↦ nomatch h) (.operand (fun h ↦ nomatch h) ih)
  | selfReference hc =>
    rw [Part.survey, Outline.survey_singleton]
    exact .selfReference rfl hc
  | superInitializer hΓ hc hf _ ih =>
    rw [Part.survey, Outline.survey_singleton]
    rw [hΓ, hc, hf] at ih
    rw [hΓ, hc, hf]
    exact .superInitializer rfl ih
  | returning _ _ ih =>
    rw [Part.survey, Outline.survey_singleton]
    exact .cons (fun h ↦ nomatch h) (fun h ↦ nomatch h) (.operand (fun h ↦ nomatch h) ih)
  | @ifChain Γ k c c₁ c₂ c₃ reports isTotal condition body rest h₁ h₂ _ ih₁ ih₂ ih₃ =>
    rw [Part.survey, Outline.survey_singleton]
    have hb := walk_block h₁.grows.flowDepth ih₂
    rw [(h₁.grows.branch h₂.grows).flowDepth] at ih₃
    have hw := Walk.cons (i := ⟨k, .ifChain, []⟩) (fun h ↦ nomatch h) (fun h ↦ nomatch h)
      (.append (.append ih₁ hb) ih₃)
    cases isTotal <;> exact hw
  | otherwise _ ih =>
    rw [Part.survey, Outline.survey_singleton]
    exact .cons (fun h ↦ nomatch h) (fun h ↦ nomatch h) (walk_block rfl ih)
  | elseIf h₁ h₂ _ ih₁ ih₂ ih₃ =>
    rw [Part.survey, Outline.survey_singleton]
    have hb := walk_block h₁.grows.flowDepth ih₂
    rw [(h₁.grows.branch h₂.grows).flowDepth] at ih₃
    exact .cons (fun h ↦ nomatch h) (fun h ↦ nomatch h) (.append (.append (.condition ih₁) hb) ih₃)
  | repeatWhile h₁ _ ih₁ ih₂ =>
    rw [Part.survey, Outline.survey_singleton]
    exact .cons (fun h ↦ nomatch h) (fun h ↦ nomatch h)
      (.append (.condition ih₁) (walk_block h₁.grows.flowDepth ih₂))
  | forIn _ _ _ _ h₁ _ _ ih₁ ih₂ =>
    rw [Part.survey, Outline.survey_singleton]
    exact .cons (fun h ↦ nomatch h) (fun h ↦ nomatch h)
      (.append ih₁ (walk_block h₁.grows.flowDepth ih₂))
  | closure _ hi _ hd hb _ _ _ _ _ _ ih =>
    rw [Part.survey, Outline.survey_singleton]
    rw [Setting.initializesSuper, hi, hd, hb] at ih
    exact .cons (fun h ↦ nomatch h) (fun h ↦ nomatch h) (.closure ih)

end Emits

end Pictograph
