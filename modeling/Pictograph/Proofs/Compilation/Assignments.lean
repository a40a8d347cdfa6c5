import Pictograph.Proofs.Analysis.Balance
import Pictograph.Proofs.Compilation.FieldValues
import Pictograph.Proofs.Compilation.LocalVariables
import Pictograph.Proofs.Compilation.ReachedStates
import Pictograph.Proofs.Scope.NamesAndSlots

/-!
# What an assignment gives a value to

The store of an assignment stands in front of the value, so the name on the left is looked up before
the value is analysed. Behind the value it is looked up once more, and what it refers to then counts
as having a value. The value may have declared a variable of this name in the innermost scope. Then
the two variables are not the same, and the one that counts as having a value was never stored to.

## Main definitions

* `State.storing`: the state in front of the value of an assignment.
* `Assigns`: the steps of an assignment.

## Main results

* `settled_slot_of_assignment`: which variable an assignment gives a value to, and when it is the
  one that the code stores to.
* `assignment_settles_declared`: an assignment that stores to a field and gives a value to another
  variable.
-/

namespace Pictograph

/-- The state in front of the value of an assignment: the variable counts as written, and the store
stands there with the slot of the variable. -/
def State.storing (s : State) (x : String) (st : Storage) (v : Variable) (cursor : Cursor) :
    State :=
  Analysis.final (Analysis.emitAccess st .store v.slot
    { s with cursor, environment := s.environment.update x fun _ ↦ { v with isMutated := true } })

/-- The steps of an assignment to a name that refers to the variable `v` in front of it. -/
structure Assigns (Γ : Setting) (rec : Recursion) (x : String) (st : Storage) (v : Variable)
    (s front behind s' : State) : Prop where
  /-- The store is written with the slot of the variable. -/
  store : front.listing = s.listing ++ [(Opcode.access st .store).entry, immediateNumber v.slot]
  /-- No counter changes in front of the value. -/
  counters : ∀ slot, front.environment.counter? slot = s.environment.counter? slot
  /-- The value is analysed. -/
  value : ∃ t, Analysis.operandFitting Γ rec v.type front = .ok t behind
  /-- The code of the value stands behind the store. -/
  code : front.listing <+: behind.listing
  /-- Behind the value nothing is written. -/
  listing : s'.listing = behind.listing
  /-- What the name refers to by now has a value. -/
  environment : s'.environment = behind.environment.update x Variable.settle

namespace Analysis

variable {Γ : Setting} {s s' : State} {t : Ty} {x : String} {span : Span} {cursor : Cursor}
  {st : Storage} {v : Variable} {n : Nat}

/-- Noting the writing of a variable changes no counter. -/
theorem counter?_storing (hx : s.environment.resolve? x = some (st, v)) (hs : s.environment.Apart)
    (cursor : Cursor) (slot : Slot) :
    (s.storing x st v cursor).environment.counter? slot = s.environment.counter? slot := by
  have henvironment : (s.storing x st v cursor).environment
      = s.environment.update x fun _ ↦ { v with isMutated := true } := by
    cases st <;> rfl
  have hoccupant := hs.occupant?_update (f := fun _ ↦ { v with isMutated := true }) hx
    (fun _ _ ↦ rfl) slot
  rw [henvironment, Environment.counter?, hoccupant, Environment.counter?]
  split
  · next heq =>
    subst heq
    have hv : v ∈ s.environment.stored st :=
      Environment.mem_stored.mpr (Environment.holds_of_resolve? hx)
    rw [hs.occupant?_self hv]
    rfl
  · rfl

/-- An assignment to a variable that is accepted goes through its steps. -/
theorem exists_assigns (hname : Reading.variableName s.cursor = .ok (x, span) cursor)
    (hx : s.environment.resolve? x = some (st, v)) (hs : s.environment.Apart)
    (h : assign Γ (expression n) s = .ok t s') :
    ∃ behind, Assigns Γ (expression n) x st v s (s.storing x st v cursor) behind s'
      ∧ s.context.Grows behind.context := by
  have h := emitting_of_ok (m := fun r ↦ assign Γ r) h
  obtain ⟨⟨x', span'⟩, s₁, h₁, h⟩ := h.bind
  obtain ⟨cursor', hcursor, rfl⟩ := reading_ok h₁.const
  cases hname.symm.trans hcursor
  obtain ⟨found?, s₂, h₂, h⟩ := h.bind
  obtain ⟨hfound, rfl⟩ := resolve?_ok h₂.const
  cases hx.symm.trans hfound
  obtain ⟨mutated, s₃, h₃, h⟩ := h.bind
  obtain ⟨hmutated, rfl⟩ := lift_ok h₃.const
  obtain ⟨_, s₄, h₄, h⟩ := h.bind
  cases h₄.const
  obtain ⟨_, front, h₅, h⟩ := h.bind
  obtain ⟨type, behind, h₆, h⟩ := h.bind
  obtain ⟨_, s₇, h₇, h⟩ := h.bind
  obtain ⟨-, rfl⟩ := pure_ok h.const
  cases h₇.const
  have hstore := adds_emitAccess h₅.const
  obtain ⟨value, hvalue, -⟩ := wrote_operandFitting h₆
  have hmutate : s.context.Grows front.context := by
    rw [hstore.context]
    exact .mutate hx hmutated
  obtain rfl : front = s.storing x st v cursor := by
    unfold Variable.mutate at hmutated
    split at hmutated
    · cases hmutated
    · cases hmutated
      exact (congrArg final h₅.const).symm
  exact ⟨behind, ⟨hstore.listing, counter?_storing hx hs cursor, ⟨type, h₆.run⟩,
    ⟨_, hvalue.listing.symm⟩, rfl, rfl⟩, hmutate.trans hvalue.emits.grows⟩

end Analysis

section

variable {cat : Catalogue} {options : Options} {session : Session} {c : Class} {m : Member}
  {tokens : List Token} {n : Nat} {q : Query} {t : Ty} {s' : State} {x : String} {span : Span}
  {cursor : Cursor} {st : Storage} {v : Variable}

/-- Wherever an assignment to a variable is accepted, it goes through its steps. -/
theorem ReachedIn.exists_assigns (h : ReachedIn cat options session c m tokens (n + 1) q)
    (hq : q.token.asksFor .assign) (hanswer : (Analysis.expression (n + 1)).answer q = .ok t s')
    (hname : Reading.variableName q.state.cursor = .ok (x, span) cursor)
    (hx : q.state.environment.resolve? x = some (st, v)) :
    ∃ behind, Assigns q.setting (Analysis.expression n) x st v q.state
        (q.begun.storing x st v cursor) behind s'
      ∧ q.state.context.Grows behind.context := by
  have hassign : Analysis.assign q.setting (Analysis.expression n) q.begun = .ok t s' :=
    (Query.answer_of_asksFor hq nofun).symm.trans hanswer
  obtain ⟨behind, hassigns, hgrows⟩ := Analysis.exists_assigns (s := q.begun) hname hx
    (Environment.Distinct.apart h.distinct) hassign
  exact ⟨behind, ⟨hassigns.store, hassigns.counters, hassigns.value, hassigns.code,
    hassigns.listing, hassigns.environment⟩, hgrows⟩

/-- **What an assignment gives a value to.** Wherever an assignment to a name that refers to a
variable is accepted, it writes the store to the slot of that variable in front of the value. Behind
the value it gives a value to the variable that the name refers to by then, and changes no other.
That is the one that the code stores to just if the innermost scope does not declare the name or did
so in front of the assignment. -/
theorem settled_slot_of_assignment (h : ReachedIn cat options session c m tokens (n + 1) q)
    (hq : q.token.asksFor .assign) (hanswer : (Analysis.expression (n + 1)).answer q = .ok t s')
    (hname : Reading.variableName q.state.cursor = .ok (x, span) cursor)
    (hx : q.state.environment.resolve? x = some (st, v)) :
    ∃ front behind st' v',
      Assigns q.setting (Analysis.expression n) x st v q.state front behind s'
      ∧ s'.environment.resolve? x = some (st', v')
      ∧ (∀ slot, s'.environment.occupant? slot
          = if ⟨st', v'.slot⟩ = slot then (behind.environment.occupant? slot).map Variable.settle
            else behind.environment.occupant? slot)
      ∧ ((⟨st', v'.slot⟩ : Slot) = ⟨st, v.slot⟩
          ↔ (s'.environment.current.contains x → q.state.environment.current.contains x)) := by
  have hdistinct : q.state.context.Distinct := h.distinct
  obtain ⟨behind, hassigns, hvalue⟩ := h.exists_assigns hq hanswer hname hx
  have hbehind : behind.environment.Apart :=
    Environment.Distinct.apart (hdistinct.grows hvalue)
  have hgrows : q.state.environment.Grows q.state.context.slotCount behind.context.slotCount
      s'.environment := by
    rw [hassigns.environment]
    exact hvalue.environment.trans (Environment.grows_update fun _ w _ ↦ .settle w)
      hvalue.slotCount (Nat.le_refl _)
  -- the name refers to a variable behind the value, which may be another one
  obtain ⟨⟨st', w⟩, hw⟩ : ∃ found, behind.environment.resolve? x = some found :=
    Option.isSome_iff_exists.mp (hvalue.environment.toExtends.isSome_resolve?
      (Option.isSome_iff_exists.mpr ⟨_, hx⟩))
  have hsettled : s'.environment.resolve? x = some (st', w.settle) := by
    rw [hassigns.environment]
    exact Environment.resolve?_update Variable.settle_name hw
  refine ⟨_, behind, st', w.settle, hassigns, hsettled, fun slot ↦ ?_, ?_⟩
  · rw [hassigns.environment, Variable.settle_slot]
    exact hbehind.occupant?_update hw (fun _ hslot ↦ (Variable.settle_slot _).trans hslot) slot
  · by_cases hcurrent : s'.environment.current.contains x → q.state.environment.current.contains x
    · refine iff_of_true ?_ hcurrent
      obtain ⟨v', hv', hev⟩ := hgrows.toExtends.exists_resolve? hx hcurrent
      cases hsettled.symm.trans hv'
      rw [hev.slot]
    · refine iff_of_false (fun hslot ↦ ?_) hcurrent
      obtain ⟨hnew, hold⟩ := Classical.not_imp.mp hcurrent
      obtain ⟨v', hv', hlo⟩ := hgrows.exists_resolve?_new hnew hold
      cases hsettled.symm.trans hv'
      obtain ⟨rfl, hid⟩ := Slot.mk.inj hslot
      -- a new variable is in a slot behind those of the variables in front of the assignment
      have hlt := hdistinct.lt v (Environment.holds_of_resolve? hx)
      rw [hid] at hlo
      exact absurd hlt (Nat.not_lt.mpr hlo)

end

namespace Sample

/-- The field `f` of 🐱 at the start of a procedure, with its counter. -/
def field (readiness : Int) : Variable :=
  { name := "f", type := .boolean, slot := 0, readiness, span := .nowhere }

/-- The query for the assignment of `fieldAssignment`. In an initializer the field has no value. -/
def fieldQuery : Query :=
  .first (.ofMember catalogue {} parentClass initializer) (some ⟨[field 0]⟩) .start (ask .assign)
    fieldAssignment.tail

/-- The query for the assignment of `strayAssignment`. In a method the field has a value. -/
def strayQuery : Query :=
  .first (.ofMember catalogue {} parentClass method) (some ⟨[field 1]⟩) .start (ask .assign)
    strayAssignment.tail

end Sample

/-- An assignment to a field gives the field a value. -/
theorem settled_slot_of_assignment_field :
    ∃ q t s' front behind, ReachedIn Sample.catalogue {} .start Sample.parentClass
        Sample.initializer Sample.fieldAssignment 4 q
      ∧ q.token.asksFor .assign ∧ (Analysis.expression 4).answer q = .ok t s'
      ∧ Assigns q.setting (Analysis.expression 3) "f" .object (Sample.field 0) q.state front behind
          s'
      ∧ ∀ slot, s'.environment.occupant? slot
          = if ⟨.object, 0⟩ = slot then (behind.environment.occupant? slot).map Variable.settle
            else behind.environment.occupant? slot := by
  have hreached : ReachedIn Sample.catalogue {} .start Sample.parentClass Sample.initializer
      Sample.fieldAssignment 4 Sample.fieldQuery :=
    reachedIn_first (by decide +kernel) rfl (by decide +kernel) (by decide +kernel)
  have hanswer := Analysis.eq_ok_of_value? (a := .nothingness)
    (r := (Analysis.expression 4).answer Sample.fieldQuery) (by decide +kernel)
  have hfield : Sample.fieldQuery.state.environment.resolve? "f"
      = some (.object, Sample.field 0) := by
    decide +kernel
  obtain ⟨front, behind, st', v', hassigns, -, hsettled, hslot⟩ :=
    settled_slot_of_assignment hreached (by decide +kernel) hanswer rfl hfield
  -- the value declares no variable
  have hsame : (⟨st', v'.slot⟩ : Slot) = ⟨.object, 0⟩ :=
    hslot.mpr fun hcontains ↦ absurd hcontains (by decide +kernel)
  rw [hsame] at hsettled
  exact ⟨_, _, _, front, behind, hreached, by decide +kernel, hanswer, hassigns, hsettled⟩

/-- **An assignment may give a value to another variable than it stores to.** The store is one to
the field `f`. The value declares a variable `f` without a value, and that is the one that has a
value behind the assignment. -/
theorem assignment_settles_declared :
    ∃ q t s' front behind, ReachedIn Sample.catalogue {} .start Sample.parentClass Sample.method
        Sample.strayAssignment 8 q
      ∧ q.token.asksFor .assign ∧ (Analysis.expression 8).answer q = .ok t s'
      ∧ Assigns q.setting (Analysis.expression 7) "f" .object (Sample.field 1) q.state front behind
          s'
      ∧ behind.environment.counter? ⟨.frame, 0⟩ = some 0
      ∧ s'.environment.counter? ⟨.frame, 0⟩ = some 1 := by
  have hreached : ReachedIn Sample.catalogue {} .start Sample.parentClass Sample.method
      Sample.strayAssignment 8 Sample.strayQuery :=
    reachedIn_first (by decide +kernel) rfl (by decide +kernel) (by decide +kernel)
  have hanswer := Analysis.eq_ok_of_value? (a := .nothingness)
    (r := (Analysis.expression 8).answer Sample.strayQuery) (by decide +kernel)
  have hfield : Sample.strayQuery.state.environment.resolve? "f"
      = some (.object, Sample.field 1) := by
    decide +kernel
  obtain ⟨behind, hassigns, -⟩ :=
    hreached.exists_assigns (by decide +kernel) hanswer rfl hfield
  obtain ⟨_, hvalue⟩ := hassigns.value
  obtain rfl : Analysis.final _ = behind := congrArg Analysis.final hvalue
  refine ⟨Sample.strayQuery, _, _, _, _, hreached, by decide +kernel, hanswer, hassigns, ?_, ?_⟩
  · decide +kernel
  · decide +kernel

end Pictograph
