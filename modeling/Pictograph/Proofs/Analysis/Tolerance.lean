import Pictograph.Proofs.Analysis.LockstepConstructs

/-!
# Analyses that differ in what they tolerate

Some of what the setting of a body says has no part in the code: the names of fields and arguments,
whether variables are recommended to be frozen, and, as long as nothing runs into it, the slot
limit. Two analyses of the same body whose settings differ in nothing else run in lockstep. They
write the same code and the same strings, and give the same warnings apart from recommendations.

## Main definitions

* `Tolerance`: the warnings and faults by which the two analyses may differ.
* `Tolerance.Admits`: the settings that differ in no more than that.
* `Tolerance.Agrees`: the sessions that do.

## Main results

* `Tolerance.ends_analyse`: the analyses of a body agree.
-/

namespace Pictograph

/-- What two analyses may differ in. -/
structure Tolerance where
  /-- The warnings that one of them may give and the other may not. -/
  ignores : Warning → Bool
  /-- The faults of the first one that the second one may not have. -/
  excuses : Fault → Prop

namespace Tolerance

/-- Nothing is tolerated. -/
def strict : Tolerance := ⟨fun _ ↦ false, fun _ ↦ False⟩

variable (τ : Tolerance)

/-- The same strings, and the same warnings apart from those that are ignored. -/
structure Agrees (s z : Session) : Prop where
  strings : z.strings = s.strings
  warnings : z.warnings.toList.filter (!τ.ignores ·) = s.warnings.toList.filter (!τ.ignores ·)

/-- Settings that differ in names and in no other way that is not tolerated. The second slot limit
may be larger. -/
structure Admits (Γ Γ' : Setting) : Prop extends Γ.Resembles Γ' where
  recommendsFrozen : Γ'.options.recommendsFrozen = Γ.options.recommendsFrozen
    ∨ ∀ x p, τ.ignores ⟨.couldBeFrozen x, p⟩
  slotLimit : Γ'.options.slotLimit = Γ.options.slotLimit
    ∨ Γ.options.slotLimit ≤ Γ'.options.slotLimit
      ∧ ∀ p, τ.excuses ((Cause.tooManyVariables Γ.options.slotLimit).at p)

/-- The sessions agree, and nothing else is kept. -/
def lockstep : Lockstep where
  setting := τ.Admits
  state s z := τ.Agrees s.session z
  failed := τ.Agrees
  excused := τ.excuses
  reaches _ := True

variable {τ} {Γ Γ' : Setting}

/-! ## Sessions -/

namespace Agrees

variable {s z : Session}

theorem refl (s : Session) : τ.Agrees s s := ⟨rfl, rfl⟩

theorem warn (w : Warning) (h : τ.Agrees s z) : τ.Agrees (s.warn w) (z.warn w) where
  strings := h.strings
  warnings := by
    simp only [Session.warn, Array.toList_push, List.filter_append]
    rw [h.warnings]

/-- A warning that is ignored may be given on one side only. -/
theorem warn_left {w : Warning} (hw : τ.ignores w) (h : τ.Agrees s z) :
    τ.Agrees (s.warn w) z where
  strings := h.strings
  warnings := by simp [Session.warn, hw, h.warnings]

theorem intern (content : String) (h : τ.Agrees s z) :
    (z.intern content).1 = (s.intern content).1
      ∧ τ.Agrees (s.intern content).2 (z.intern content).2 := by
  rw [Session.intern, Session.intern, h.strings]
  exact ⟨rfl, rfl, h.warnings⟩

/-- Where no warning is ignored, sessions that agree are equal. -/
theorem eq (hignores : ∀ w, τ.ignores w = false) (h : τ.Agrees s z) : z = s := by
  obtain ⟨strings, warnings⟩ := s
  obtain ⟨strings', warnings'⟩ := z
  have hwarnings := h.warnings
  simp only [hignores, Bool.not_false, List.filter_true] at hwarnings
  rw [show strings' = strings from h.strings, Array.toList_inj.mp hwarnings]

end Agrees

/-! ## Settings -/

/-- Also the bodies of closures are analysed in settings that differ in no more. -/
theorem Admits.closure (h : τ.Admits Γ Γ') (result : Ty) :
    τ.Admits
      { Γ with result, initializer? := none, options := Γ.options.withDeadCode true }
      { Γ' with result, initializer? := none, options := Γ'.options.withDeadCode true } where
  catalogue := h.catalogue
  selfType := h.selfType
  space := h.space
  isStatic := h.isStatic
  result := rfl
  initializer? := rfl
  compilesDeadCode := rfl
  recommendsFrozen := h.recommendsFrozen
  slotLimit := h.slotLimit

/-! ## The steps that depend on the switches -/

open Analysis

/-- A smaller limit refuses more slots. -/
theorem follows_requireSlot (slot : Nat) (p : Span) (h : τ.Admits Γ Γ') :
    τ.lockstep.Follows (requireSlot Γ slot p) (requireSlot Γ' slot p) := by
  intro s z hs
  rw [requireSlot, requireSlot]
  obtain hlimit | ⟨hle, hexcused⟩ := h.slotLimit
  · rw [hlimit]
    unfold require
    split
    · exact .ok hs
    · exact .error hs
  · unfold require
    split
    · next hslot =>
      have hslot' : (slot < Γ'.options.slotLimit && slot < Slot.count) = true := by
        simp only [Bool.and_eq_true, decide_eq_true_eq] at hslot ⊢
        exact ⟨Nat.lt_of_lt_of_le hslot.1 hle, hslot.2⟩
      rw [if_pos hslot']
      exact .ok hs
    · exact .excused (hexcused p)

/-- Recommendations leave everything as it was, apart from warnings that are ignored. -/
theorem exists_recommendFrozen (hignored : ∀ x p, τ.ignores ⟨.couldBeFrozen x, p⟩) (Γ : Setting)
    (candidates : List Variable) (s : State) :
    ∃ session, recommendFrozen Γ candidates s = .ok () { s with session }
      ∧ τ.Agrees session s.session := by
  unfold recommendFrozen
  split
  · induction candidates generalizing s with
    | nil => exact ⟨s.session, rfl, .refl _⟩
    | cons v candidates ih =>
      obtain ⟨session, hrun, hsession⟩ :=
        ih { s with session := s.session.warn ⟨.couldBeFrozen v.name, v.span⟩ }
      refine ⟨session, ?_, hsession.strings, ?_⟩
      · exact (bind_of_ok (m := Analysis.warn _ _) rfl).trans hrun
      · exact ((Agrees.refl _).warn_left (hignored _ _)).warnings.trans hsession.warnings
  · exact ⟨s.session, rfl, .refl _⟩

theorem follows_recommendFrozen (candidates : List Variable) (h : τ.Admits Γ Γ') :
    τ.lockstep.Follows (recommendFrozen Γ candidates) (recommendFrozen Γ' candidates) := by
  obtain hsame | hignored := h.recommendsFrozen
  · rw [recommendFrozen, recommendFrozen, hsame]
    exact .ite (.forM _ fun _ _ _ hs ↦ .ok (Agrees.warn _ hs)) (.pure ())
  · intro s z hs
    obtain ⟨session, hrun, hsession⟩ := exists_recommendFrozen hignored Γ candidates s
    obtain ⟨session', hrun', hsession'⟩ :=
      exists_recommendFrozen hignored Γ' candidates { s with session := z }
    rw [hrun, hrun']
    refine .ok ⟨hsession'.strings.symm.trans (hs.strings.trans hsession.strings), ?_⟩
    exact hsession'.warnings.symm.trans (hs.warnings.trans hsession.warnings)

/-! ## The laws -/

theorem follows_emit (op : Opcode) : τ.lockstep.Follows (emit op) (emit op) := fun _ _ hs ↦ .ok hs

theorem follows_useSelf : τ.lockstep.Follows useSelf useSelf := fun _ _ hs ↦ .ok hs

theorem follows_emitAccess (storage : Storage) (action : Access) (slot : Nat) :
    τ.lockstep.Follows (emitAccess storage action slot) (emitAccess storage action slot) :=
  (follows_emit _).bind fun _ ↦ .optional follows_useSelf fun _ _ hs ↦ .ok hs

variable (τ) in
theorem lawful : τ.lockstep.Lawful where
  resembles h := h.toResembles
  failed hs := hs
  reaches _ _ := trivial
  keeps_cursor _ hs := hs
  keeps_line _ hs := hs
  keeps_opcode _ hs := hs
  keeps_word _ hs := hs
  keeps_hole hs := hs
  keeps_fill hs _ := hs
  keeps_fillOpcode _ hs _ := hs
  keeps_fillCount hs _ := hs
  keeps_warning w hs := Agrees.warn w hs
  keeps_string content hs := Agrees.intern content hs
  keeps_environment hs _ := hs
  keeps_frame hs _ := hs
  follows_requireSlot slot p h := follows_requireSlot slot p h
  follows_recommendFrozen candidates h := follows_recommendFrozen candidates h
  follows_emitAccess action slot _ := follows_emitAccess _ action slot

/-! ## The constructs that touch the instance, and closures -/

theorem follows_callSuperMethod {rec : Recursion} (h : τ.Admits Γ Γ')
    (hrec : rec.Follows τ.lockstep) (p : Span) :
    τ.lockstep.Follows (callSuperMethod Γ rec p) (callSuperMethod Γ' rec p) := by
  have hL := lawful τ
  rw [callSuperMethod, callSuperMethod, h.isStatic, h.selfType]
  refine hL.follows_name.bind fun ⟨method, q⟩ ↦ (hL.follows_require _ _ _).bind fun _ ↦ ?_
  refine hL.follows_demand_bind h.superclass? _ _ fun c c' hc ↦ ?_
  rw [hc.index, hc.selfType, h.noSuchMethod_eq]
  refine (follows_emit _).bind fun _ ↦ (hL.follows_emitNumber _).bind fun _ ↦ ?_
  refine hL.follows_demand_bind (h.method? _ _) _ _ fun m m' hm ↦ ?_
  rw [hm.slot]
  refine (hL.follows_emitNumber _).bind fun _ ↦ follows_useSelf.bind fun _ ↦ ?_
  exact hL.follows_callMember h hrec hm _ _

theorem handles {rec : Recursion} (hrec : rec.Follows τ.lockstep) : τ.lockstep.Handles rec where
  selfReference p h := (lawful τ).follows_selfReference h p fun _ ↦
    follows_useSelf.bind fun _ ↦ (follows_emit _).bind fun _ ↦ .pure _
  callSuperMethod p h := follows_callSuperMethod h hrec p
  superInitializer p h := (lawful τ).follows_superInitializer h hrec p (follows_emit _)
  closure h := (lawful τ).follows_closure h hrec h.closure (follows_emit _) follows_useSelf
    (fun _ _ ↦ id) fun _ _ _ ↦ id

/-! ## Bodies -/

/-- **The analyses of a body agree** in settings that differ in no more than what is tolerated. -/
theorem ends_analyse (h : τ.Admits Γ Γ') (arguments : List Argument) (fields : Option Scope)
    {session session' : Session} (hsession : τ.Agrees session session') (tokens : List Token) :
    τ.lockstep.Ends (analyse Γ arguments fields session tokens)
      (analyse Γ' arguments fields session' tokens) := by
  have hexpression := Lockstep.follows_expression (ι := Unit) (fun _ ↦ lawful τ)
    (fun _ hrec _ ↦ handles (hrec ())) tokens.length ()
  exact (lawful τ).follows_body h hexpression arguments [] 0 _ session' hsession

end Tolerance

end Pictograph
