import Pictograph.Proofs.Analysis.LockstepConstructs
import Pictograph.Proofs.Analysis.Query
import Pictograph.Proofs.Code.Offsets

/-!
# Invariants of an analysis

An analysis is in lockstep with itself, so what lockstep keeps is an invariant of its states. The
invariants of this module are about the code that was written, about whether the body refers to the
instance, and about whether there are fields in reach. Most steps write words and plain
instructions; such an invariant keeps to the laws if it survives these, and an access to a field.
The constructs that write other instructions are left to the invariant.

## Main definitions

* `Invariant`: what is kept about code and instance.
* `Invariant.Lawful`: it survives plain instructions and accesses.

## Main results

* `Invariant.follows_iff`: what lockstep means for an invariant.
* `Invariant.holds_of_analyse`: an invariant that holds before a body holds behind it.
-/

namespace Pictograph

/-- What is kept about the code that was written, given whether the body has referred to the
instance and whether there are fields in reach. -/
structure Invariant where
  /-- The settings of the bodies that it is kept in. -/
  setting : Setting → Prop
  /-- What is kept. -/
  holds : (code : Assembler) → (usesSelf hasFields : Bool) → Prop
  /-- Where the variables in reach may be stored. -/
  reaches : Storage → Prop

namespace Invariant

open Analysis

variable {I : Invariant} {α : Type} {Γ : Setting} {s s' : State}

/-- The invariant holds in a state. -/
def HoldsIn (I : Invariant) (s : State) : Prop :=
  I.holds s.assembler s.frame.usesSelf s.environment.fields.isSome

/-- An analysis is compared with itself. -/
def lockstep (I : Invariant) : Lockstep where
  setting Γ Γ' := Γ' = Γ ∧ I.setting Γ
  state s z := z = s.session ∧ I.HoldsIn s
  failed s z := z = s
  excused _ := False
  reaches := I.reaches

/-- The invariant is kept where only plain instructions are written, and by accesses to fields. -/
structure Lawful (I : Invariant) : Prop where
  sound {a u b} : I.holds a u b → a.Sound
  spares {a a' u b} : I.holds a u b → a.Spares (!·.isPlain) a' → I.holds a' u b
  reaches_frame : I.reaches .frame
  reaches_object {a u} : I.holds a u true → I.reaches .object
  access {a u b} (action : Access) : I.reaches .object → I.holds a u b →
    I.holds (a.opcode (.access .object action)) true b

/-- **What lockstep means for an invariant**: it holds behind every run that succeeds. -/
theorem follows_iff {m : Analysis α} :
    I.lockstep.Follows m m ↔ ∀ s a s', I.HoldsIn s → m s = .ok a s' → I.HoldsIn s' := by
  constructor
  · intro hm s a s' hs h
    obtain ⟨_, hend⟩ : ∃ r, I.lockstep.Ends (m s) r := ⟨_, hm s s.session ⟨rfl, hs⟩⟩
    rw [h] at hend
    cases hend with
    | ok ht => exact ht.2
  · rintro h s z ⟨rfl, hs⟩
    change I.lockstep.Ends (m s) (m s)
    cases hm : m s with
    | ok a s' => exact .ok ⟨rfl, h s a s' hs hm⟩
    | error => exact .error rfl

/-- A field is in reach only if there are fields. -/
theorem hasFields_of_resolve? {e : Environment} {x : String} {v : Variable}
    (h : e.resolve? x = some (.object, v)) : e.fields.isSome := by
  rw [Environment.resolve?] at h
  split at h
  · cases h
  · obtain ⟨_, hv, -⟩ := Option.map_eq_some_iff.mp h
    obtain ⟨fields, hfields, -⟩ := Option.bind_eq_some_iff.mp hv
    rw [hfields]
    rfl

/-- An invariant that survives plain instructions and accesses keeps to the laws. -/
theorem Lawful.lockstep (hI : I.Lawful) : I.lockstep.Lawful where
  resembles h := h.1 ▸ .refl _
  failed hs := hs.1
  reaches {s z x storage v} hs hx := by
    cases storage with
    | frame => exact hI.reaches_frame
    | object =>
      have hs := hs.2
      rw [HoldsIn, hasFields_of_resolve? hx] at hs
      exact hI.reaches_object hs
  keeps_cursor _ hs := hs
  keeps_line line hs := ⟨hs.1, hI.spares hs.2 ((hI.sound hs.2).spares_atLine line)⟩
  keeps_opcode hop hs :=
    ⟨hs.1, hI.spares hs.2 ((hI.sound hs.2).spares_opcode (congrArg not hop))⟩
  keeps_word w hs := ⟨hs.1, hI.spares hs.2 ((hI.sound hs.2).spares_word w)⟩
  keeps_hole hs := ⟨hs.1, hI.spares hs.2 (hI.sound hs.2).spares_appendHole⟩
  keeps_fill hs ha := ⟨hs.1, hI.spares hs.2 ((hI.sound hs.2).spares_fill? ha)⟩
  keeps_fillOpcode hop hs ha :=
    ⟨hs.1, hI.spares hs.2 ((hI.sound hs.2).spares_fillOpcode? (congrArg not hop) ha)⟩
  keeps_fillCount hs ha := ⟨hs.1, hI.spares hs.2 ((hI.sound hs.2).spares_fillCount? ha)⟩
  keeps_warning _ hs := ⟨hs.1 ▸ rfl, hs.2⟩
  keeps_string content hs := by
    obtain ⟨rfl, hs⟩ := hs
    exact ⟨rfl, rfl, hs⟩
  keeps_environment {s z e} hs he := by
    refine ⟨hs.1, ?_⟩
    change I.holds s.assembler s.frame.usesSelf e.fields.isSome
    rw [he]
    exact hs.2
  keeps_frame {s z f} hs hf := by
    refine ⟨hs.1, ?_⟩
    change I.holds s.assembler f.usesSelf s.environment.fields.isSome
    rw [hf]
    exact hs.2
  follows_requireSlot slot p h := by
    obtain ⟨rfl, -⟩ := h
    exact follows_iff.mpr fun s u s' hs h ↦ (require_ok h).2 ▸ hs
  follows_recommendFrozen candidates h := by
    obtain ⟨rfl, -⟩ := h
    refine .ite (.forM _ fun v ↦ follows_iff.mpr fun s u s' hs h ↦ ?_) (.pure ())
    cases h
    exact hs
  follows_emitAccess {storage} action slot hstorage := by
    refine follows_iff.mpr fun s u s' hs h ↦ ?_
    cases storage with
    | frame =>
      cases h
      have hopcode : s.assembler.Spares (!·.isPlain) (s.assembler.opcode (.access .frame action)) :=
        (hI.sound hs).spares_opcode rfl
      exact hI.spares (hI.spares hs hopcode) (hopcode.sound.spares_word _)
    | object =>
      cases h
      have hopcode := hI.access action hstorage hs
      exact hI.spares hopcode ((hI.sound hopcode).spares_word _)

/-- **An invariant that holds before a body holds behind it**, if the constructs keep it that the
laws say nothing about. The bodies of closures may keep other invariants of the same family. -/
theorem holds_of_analyse {ι : Type} {I : ι → Invariant} (hI : ∀ i, (I i).Lawful)
    (hhandles : ∀ rec : Recursion, (∀ i, rec.Follows (I i).lockstep) →
      ∀ i, (I i).lockstep.Handles rec) (i : ι) (hΓ : (I i).setting Γ)
    {arguments : List Argument} {fields : Option Scope} {session : Session} {tokens : List Token}
    {summary : Summary} (hstart : (I i).holds .start false fields.isSome)
    (h : analyse Γ arguments fields session tokens = .ok summary s) : (I i).HoldsIn s := by
  have hexpression := Lockstep.follows_expression (fun i ↦ (hI i).lockstep) hhandles tokens.length i
  have hbody := (hI i).lockstep.follows_body ⟨rfl, hΓ⟩ hexpression arguments [] 0
  let s₀ : State :=
    { cursor := .start tokens, assembler := .start, session := session,
      environment := .start fields, frame := {} }
  have hs₀ : (I i).HoldsIn s₀ := hstart
  exact follows_iff.mp hbody s₀ summary s hs₀ h

end Invariant

end Pictograph
