import Pictograph.Proofs.Analysis.Balance
import Pictograph.Proofs.Analysis.Candidates
import Pictograph.Proofs.Analysis.ClosureBodies
import Pictograph.Proofs.Analysis.SelfFlags

/-!
# Candidates in closures

A frame starts with its arguments, which are frozen, and with copies of the variables around it. The
copies are not recommended to be frozen, so when a closure is left, the recommendations and the
names that are still to be read are no more than they were in front of it, and out there nothing
counts that did not count before.

While a closure is analysed, its copies may be written to, and the variables they were copied from
do not take notice of that. So it makes a difference whether a closure takes over a copy of the
variable that is watched. If it does not, it is passed through like any other construct.

## Main results

* `Analysis.announced_body`: a body does not announce more than was announced in front of it.
* `Analysis.tally_closure`: a closure does not raise the number.
* `Analysis.passes_closure`: what counts beside an expression inside a closure that takes over no
  copy of the variable.
-/

namespace Pictograph

open Analysis

/-! ## Scopes of bodies -/

theorem Environment.ofBody_le_tally {o : Origin} (T : Tally o) (e : Environment) :
    T.ofBody e.current ≤ e.tally T := by
  rw [tally]
  cases e.outer with
  | nil => exact Nat.le_refl _
  | cons s outer =>
    refine Nat.le_trans (List.countP_mono_left fun v _ h ↦ ?_) (Nat.le_add_right _ _)
    exact (Bool.and_eq_true_iff.mp h).1

/-- Nothing counts in front of a body but what was announced. -/
theorem State.tally_of_start {o : Origin} {T : Tally o} {s : State} {fields : Option Scope}
    (h : s.environment = .start fields) : s.tally T = s.announced o := by
  rw [tally, h, Environment.tally_start, Nat.zero_add]

namespace Analysis

variable {α β : Type} {o : Origin} {Γ : Setting} {rec : Recursion} {s s' : State}
  {span : Span} {first outerSlots : Nat} {captured : List Variable} {arguments : List Argument}

/-! ## Entering a body -/

/-- A step that neither reads nor has to do with the session. -/
def Silent (x : Analysis α) : Prop :=
  ∀ s a s', x s = .ok a s' → s'.cursor = s.cursor ∧ s'.session = s.session

namespace Silent

variable {x : Analysis α} {f : α → Analysis β}

theorem bind (h : Silent x) (h' : ∀ a, Silent (f a)) : Silent (x >>= f) := by
  intro s b s' hrun
  obtain ⟨a, s₁, ha, hb⟩ := bind_ok hrun
  obtain ⟨hcursor, hsession⟩ := h s a s₁ ha
  obtain ⟨hcursor', hsession'⟩ := h' a s₁ b s' hb
  exact ⟨hcursor'.trans hcursor, hsession'.trans hsession⟩

theorem pure (a : α) : Silent (Pure.pure a : Analysis α) := by
  rintro s _ _ ⟨⟩
  exact ⟨rfl, rfl⟩

theorem ite {c : Prop} [Decidable c] {y : Analysis α} (h : Silent x) (h' : Silent y) :
    Silent (if c then x else y) := by
  split
  · exact h
  · exact h'

theorem forM {l : List β} {g : β → Analysis Unit} (h : ∀ b, Silent (g b)) : Silent (l.forM g) := by
  induction l with
  | nil => exact .pure ()
  | cons b l ih => exact .bind (h b) fun _ ↦ ih

theorem get : Silent (get : Analysis State) := by
  rintro s _ _ ⟨⟩
  exact ⟨rfl, rfl⟩

theorem modifyFrame (g : Frame → Frame) : Silent (modifyFrame g) := by
  rintro s _ _ ⟨⟩
  exact ⟨rfl, rfl⟩

theorem frame : Silent frame := .bind .get fun _ ↦ .pure _

theorem requireSlot (slot : Nat) : Silent (requireSlot Γ slot span) := by
  intro s _ s' h
  obtain ⟨-, rfl⟩ := requireSlot_ok h
  exact ⟨rfl, rfl⟩

theorem declare (v : Variable) : Silent (declare v) := by
  intro s _ s' h
  obtain ⟨e, -, rfl⟩ := declare_ok h
  exact ⟨rfl, rfl⟩

theorem declareArgument (a : Argument) : Silent (declareArgument Γ span a) :=
  .bind (.bind .frame fun _ ↦ .bind (.requireSlot _) fun _ ↦ .bind (.modifyFrame _) fun _ ↦ .pure _)
    fun _ ↦ .declare _

theorem takeOver : Silent (takeOver Γ span captured outerSlots) := by
  refine .bind .frame fun _ ↦ .ite (.bind (.forM fun _ ↦ ?_) fun _ ↦
    .bind (.modifyFrame _) fun _ ↦ .pure _) (.pure _)
  exact .bind .get fun _ ↦ .ite (.bind (.requireSlot _) fun _ ↦ .declare _) (.pure _)

end Silent

/-- **A frame starts without candidates**, apart from the copies that it takes over. -/
theorem tally_enterBody {fields : Option Scope} (hs : s.environment = .start fields)
    (h : enterBody Γ arguments captured outerSlots s = .ok first s') (T : Tally o)
    (hcaptured : ∀ u ∈ captured, T.counts u → T.isOwn (first + u.slot) = false) :
    s'.tally T = s.announced o := by
  obtain ⟨here', s₁, hhere, h⟩ := bind_ok h
  cases hhere
  obtain ⟨_, s₂, hdeclare, htake⟩ := bind_ok h
  obtain ⟨hcursor, hsession⟩ := Silent.forM (fun a ↦ .declareArgument a) _ _ _ hdeclare
  obtain ⟨hcursor', hsession'⟩ := Silent.takeOver _ _ _ htake
  obtain ⟨vs, hvs, -, -, -, hfrozen⟩ := declares_arguments hdeclare
  obtain ⟨vs', hvs', -, -, -, hcopies⟩ := declares_takeOver htake
  have hfirst : first = s₂.context.slotCount := by
    obtain ⟨f, s₃, hframe, htake⟩ := bind_ok htake
    cases hframe
    dsimp only at htake
    split at htake
    · obtain ⟨_, s₄, -, htake⟩ := bind_ok htake
      obtain ⟨_, s₅, -, htake⟩ := bind_ok htake
      exact (pure_ok htake).1.symm
    · exact (pure_ok htake).1.symm
  have henvironment : s'.environment
      = { s.environment with current := ⟨s.environment.current.declared ++ (vs ++ vs')⟩ } :=
    congrArg Context.environment (hvs.trans hvs').context
  have hnone : s'.environment.tally T = 0 := by
    rw [henvironment, hs]
    change (vs ++ vs').countP _ = 0
    refine List.countP_eq_zero.mpr fun v hv hcounts ↦ ?_
    obtain ⟨hcounts, hown⟩ := Bool.and_eq_true_iff.mp hcounts
    rcases List.mem_append.mp hv with hv | hv
    · rw [Variable.counts_of_isFrozen (hfrozen v hv)] at hcounts
      cases hcounts
    · obtain ⟨u, hu, rfl⟩ := hcopies v hv
      rw [← hfirst] at hown
      cases (hcaptured u hu hcounts).symm.trans hown
  rw [State.tally, hnone, Nat.zero_add, State.announced, State.announced, hcursor'.trans hcursor,
    hsession'.trans hsession]

/-! ## Leaving a body -/

/-- **What a body recommends in the end** are candidates of its own. -/
theorem announced_leaveBody {summary : Summary}
    (h : leaveBody Γ first outerSlots span s = .ok summary s') (T : Tally o)
    (hown : ∀ slot, slot < first ∨ first + outerSlots ≤ slot → T.isOwn slot) :
    s'.announced o ≤ s.tally T := by
  obtain ⟨s₀, s₁, hget, h⟩ := bind_ok h
  cases hget
  obtain ⟨_, s₂, hrecommend, h⟩ := bind_ok h
  obtain ⟨f, s₃, hframe, h⟩ := bind_ok h
  cases hframe
  obtain ⟨_, s₄, hreturned, h⟩ := bind_ok h
  obtain ⟨-, rfl⟩ := require_ok hreturned
  obtain ⟨_, s₅, hcomplete, h⟩ := bind_ok h
  obtain ⟨rfl, -⟩ := requireComplete_ok hcomplete
  obtain ⟨f', s₆, hframe, h⟩ := bind_ok h
  cases hframe
  obtain ⟨_, s₇, hcalled, h⟩ := bind_ok h
  obtain ⟨-, rfl⟩ := require_ok hcalled
  obtain ⟨f'', s₈, hframe, h⟩ := bind_ok h
  cases hframe
  obtain ⟨-, rfl⟩ := pure_ok h
  refine Nat.le_trans (Raises.announced_recommendFrozen hrecommend).1 ?_
  rw [State.tally, Nat.add_comm]
  refine Nat.add_le_add_right (Nat.le_trans ?_ (Environment.ofBody_le_tally T _)) _
  rw [Scope.freezable, List.filter_filter, List.countP_filter]
  refine List.countP_mono_left fun v _ hv ↦ ?_
  obtain ⟨hfrom, hv⟩ := Bool.and_eq_true_iff.mp hv
  obtain ⟨hslot, hfree⟩ := Bool.and_eq_true_iff.mp hv
  refine Bool.and_eq_true_iff.mpr ⟨Variable.counts_of_freezable T hfrom hfree, hown _ ?_⟩
  simpa using hslot

/-! ## Bodies -/

section

variable {fields : Option Scope} {summary : Summary} (hrec : rec.GoesOnward)
  (hs : s.environment = .start fields)
  (hrun : body Γ rec arguments captured outerSlots s = .ok summary s')
  (hasked : ∀ q, Asks rec (fun r ↦ body Γ r arguments captured outerSlots) s q →
    rec.Conserves o q)

include hrec hs hrun hasked

/-- **A body does not announce more** than was announced in front of it, even if it takes over
copies of candidates. -/
theorem announced_body (hcaptured : ∀ u ∈ captured, u.slot < outerSlots) :
    s'.announced o ≤ s.announced o := by
  rw [body_eq_enterBody] at hrun
  obtain ⟨first, s₁, henter, hrun⟩ := bind_ok hrun
  obtain ⟨ending, s₂, hstatements, hleave⟩ := bind_ok hrun
  -- what is taken over is in the slots behind the first one
  let T : Tally o := ⟨true, fun slot ↦ slot < first || first + outerSlots ≤ slot⟩
  have hstart : s₁.tally T = s.announced o := by
    refine tally_enterBody hs henter T fun u hu _ ↦ ?_
    have hlt := hcaptured u hu
    simp only [T, Bool.or_eq_false_iff, decide_eq_false_iff_not]
    omega
  have hbody : s₂.tally T ≤ s₁.tally T := by
    refine (composed_bodyStatements (W := fun _ ↦ True)).carries hrec |>.run (fun q hq ↦ ?_)
      hstatements T
    exact hasked q (asks_of_enterBody henter hq)
  refine Nat.le_trans (announced_leaveBody hleave T fun slot hslot ↦ ?_) (hstart ▸ hbody)
  simpa [T] using hslot

/-- **A body passes through its expressions**, if it takes over no candidates. -/
theorem passes_body (hcaptured : ∀ u ∈ captured, u.comesFrom o = false) {q : Query} {t : Ty}
    {s₁ : State} (hq : Asks rec (fun r ↦ body Γ r arguments captured outerSlots) s q)
    (hanswer : rec.answer q = .ok t s₁) :
    PassesThrough o 0 s q.state s₁ { s' with environment := .start s'.environment.fields } := by
  obtain ⟨first, s₂, henter, hq⟩ := exists_of_asks_body hrec hq
  rw [body_eq_enterBody] at hrun
  obtain ⟨ending, s₃, hstatements, hleave⟩ := bind_ok ((bind_of_ok henter).symm.trans hrun)
  obtain ⟨aside, hmono, haside⟩ := (composed_bodyStatements (W := fun _ ↦ True)).carries hrec
    |>.through (fun q hq ↦ hasked q (asks_of_enterBody henter hq)) hq hanswer hstatements
  refine ⟨aside, hmono, fun w ↦ ?_⟩
  obtain ⟨hto, hfrom⟩ := haside w
  have hstart : s₂.tally (.all o w) = s.announced o := by
    refine tally_enterBody hs henter _ fun u hu hcounts ↦ ?_
    cases (hcaptured u hu).symm.trans (Variable.comesFrom_of_counts hcounts)
  have hend : s'.announced o ≤ s₃.tally (.all o w) := announced_leaveBody hleave _ fun _ _ ↦ rfl
  have hclear : State.tally (.all o w)
      { s' with environment := .start s'.environment.fields } = s'.announced o :=
    State.tally_of_start rfl
  rw [State.tally_of_start hs, hclear]
  exact ⟨hstart ▸ hto, Nat.le_trans hend hfrom⟩

end

/-! ## Closures -/

theorem carries_openClosure (hrec : rec.GoesOnward) :
    Carries o rec 0 fun _ ↦ openClosure Γ :=
  .bind ((composed_closureArguments (W := fun _ ↦ True)).carries hrec) fun _ ↦
    .bind ((composed_closureResult (W := fun _ ↦ True)).carries hrec) fun _ ↦
    .bind (.emit _) fun _ ↦ .bind (.step .reserve) fun _ ↦ .bind (.step .reserveCount) fun _ ↦
    .pure _

theorem carries_closeClosure (slots : Hole) (count : CountHole) (result : Ty) (summary : Summary)
    (outerSlots : Nat) : Carries o rec 0 fun _ ↦
      closeClosure slots count arguments result summary outerSlots := by
  refine .bind (.step (.fillCount _)) fun _ ↦ .ite
    (.bind (.step (.modifyFrame fun _ ↦ ⟨rfl, rfl⟩)) fun _ ↦ .bind (.step (.emitWord _)) fun _ ↦ ?_)
    (.bind (.step (.emitWord _)) fun _ ↦ ?_)
  all_goals
    exact .bind (.emitNumber _) fun _ ↦ .bind (.step (.fill _ _)) fun _ ↦ .pure _

section

variable {t : Ty} (hrec : rec.GoesOnward) (hrun : closure Γ rec s = .ok t s')
  (hasked : ∀ q, Asks rec (fun r ↦ closure Γ r) s q → rec.Conserves o q)

include hrec hrun hasked

/-- **A closure does not raise the number.** -/
theorem tally_closure (hs : ∀ v, s.environment.Holds .frame v → v.slot < s.frame.slotCount)
    (T : Tally o) : s'.tally T ≤ s.tally T := by
  rw [closure_eq] at hrun
  obtain ⟨x, s₁, hopen, hrun⟩ := bind_ok hrun
  obtain ⟨y, s₂, hinside, hclose⟩ := bind_ok hrun
  obtain ⟨henvironment, hcount⟩ := openClosure_ok hopen
  obtain ⟨summary, inner, hbody, rfl⟩ := enclosed_ok hinside
  have hvisible (u : Variable) (hu : u ∈ s₁.environment.visible) : u.slot < s₁.frame.slotCount := by
    rw [henvironment] at hu
    rw [hcount]
    obtain ⟨scope, hscope, hmem⟩ :=
      List.mem_flatMap.mp ((Environment.withoutHidden_sublist [] _).subset hu)
    exact hs u ⟨scope, hscope, hmem⟩
  have hstart : State.environment
      { s₁ with environment := .start s₁.environment.fields, frame := {} }
      = .start s₁.environment.fields := rfl
  have hannounced : inner.announced o ≤ State.announced o
      { s₁ with environment := .start s₁.environment.fields, frame := {} } :=
    announced_body hrec hstart hbody (fun q hq ↦ hasked q (asks_closure hopen hq)) hvisible
  have hsame : State.announced o
      { s₁ with environment := .start s₁.environment.fields, frame := {} } = s₁.announced o := rfl
  have hfront := (carries_openClosure hrec).run (fun q hq ↦ absurd hq Asks.not_const) hopen T
  have hclosing : Carries o rec 0 fun _ ↦ closeClosure x.2.1 x.2.2 x.1.1 x.1.2 y.1 y.2 :=
    carries_closeClosure _ _ _ _ _
  have hbehind := hclosing.run (fun q hq ↦ absurd hq Asks.not_const) hclose T
  have hinner : State.tally T { inner with
      environment := { s₁.environment with fields := inner.environment.fields }
      frame := s₁.frame } = s₁.environment.tally T + inner.announced o := rfl
  have houter : s₁.tally T = s₁.environment.tally T + s₁.announced o := rfl
  omega

/-- **A closure passes through its expressions**, if it takes over no candidates. -/
theorem passes_closure (hfree : ∀ u ∈ s.environment.visible, u.comesFrom o = false) {q : Query}
    {t' : Ty} {s₀ : State} (hq : Asks rec (fun r ↦ closure Γ r) s q)
    (hanswer : rec.answer q = .ok t' s₀) : PassesThrough o 0 s q.state s₀ s' := by
  obtain ⟨x, s₁, hopen, hq⟩ := exists_of_asks_closure hrec hq
  rw [closure_eq] at hrun
  obtain ⟨y, s₂, hinside, hclose⟩ := bind_ok ((bind_of_ok hopen).symm.trans hrun)
  obtain ⟨henvironment, -⟩ := openClosure_ok hopen
  obtain ⟨summary, inner, hbody, rfl⟩ := enclosed_ok hinside
  obtain ⟨aside, hmono, haside⟩ : PassesThrough o 0
      { s₁ with environment := .start s₁.environment.fields, frame := {} } q.state s₀
      { inner with environment := .start inner.environment.fields } := by
    have hstart : State.environment
        { s₁ with environment := .start s₁.environment.fields, frame := {} }
        = .start s₁.environment.fields := rfl
    exact passes_body hrec hstart hbody (fun q hq ↦ hasked q (asks_closure hopen hq))
      (henvironment ▸ hfree) hq hanswer
  -- what counts in the frame around the closure counts in front of it and behind it
  refine ⟨fun w ↦ aside w + s₁.environment.tally (.all o w),
    Nat.add_le_add hmono (Environment.tally_all_le o _), fun w ↦ ?_⟩
  obtain ⟨hto, hfrom⟩ := haside w
  have hfront := (carries_openClosure hrec).run (fun q hq ↦ absurd hq Asks.not_const) hopen
    (.all o w)
  have hclosing : Carries o rec 0 fun _ ↦ closeClosure x.2.1 x.2.2 x.1.1 x.1.2 y.1 y.2 :=
    carries_closeClosure _ _ _ _ _
  have hbehind := hclosing.run (fun q hq ↦ absurd hq Asks.not_const) hclose (.all o w)
  have hinner : State.tally (.all o w) { inner with
      environment := { s₁.environment with fields := inner.environment.fields }
      frame := s₁.frame } = s₁.environment.tally (.all o w) + inner.announced o := rfl
  have houter : s₁.tally (.all o w) = s₁.environment.tally (.all o w) + s₁.announced o := rfl
  have hstart : State.tally (.all o w)
      { s₁ with environment := .start s₁.environment.fields, frame := {} } = s₁.announced o :=
    State.tally_of_start rfl
  have hend : State.tally (.all o w)
      { inner with environment := .start inner.environment.fields } = inner.announced o :=
    State.tally_of_start rfl
  dsimp only
  constructor <;> omega

end

end Analysis

end Pictograph
