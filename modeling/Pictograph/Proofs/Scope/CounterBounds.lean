import Pictograph.Proofs.Scope.Counters

/-!
# Bounds of counters

A variable that gets its value has the counter one, and from then on its counter goes up with every
block that may be skipped and down again where the block is left. So the counters are bounded, and
the bound goes up and down with the blocks. It is not the same everywhere: a block without an
instance leaves the fields alone. For this reason a bound is given for each place.

## Main definitions

* `Environment.CountersWithin`: the counters are between zero and a bound for their place.
* `Storage.raised`: the bounds inside a block that may be skipped.

## Main results

* `Environment.CountersWithin.extended`: bounds that are not below one last until the next block.
* `Environment.CountersWithin.enterConditional`, `Environment.CountersWithin.leaveConditional`: what
  becomes of bounds at the two ends of a block.
-/

namespace Pictograph

/-- The bounds inside a block that may be skipped, which raises the counters of local variables and,
if `withFields`, of the fields. -/
def Storage.raised (withFields : Bool) (bound : Storage → Nat) (st : Storage) : Nat :=
  if st = .frame ∨ withFields then bound st + 1 else bound st

theorem Storage.le_raised (withFields : Bool) (bound : Storage → Nat) (st : Storage) :
    bound st ≤ raised withFields bound st := by
  unfold raised
  split
  · exact Nat.le_succ _
  · exact Nat.le_refl _

theorem Storage.raised_le (withFields : Bool) (bound : Storage → Nat) (st : Storage) :
    raised withFields bound st ≤ bound st + 1 := by
  unfold raised
  split
  · exact Nat.le_refl _
  · exact Nat.le_succ _

namespace Environment

/-- The counters of the variables in reach are between zero and a bound for their place. -/
def CountersWithin (bound : Storage → Nat) (e : Environment) : Prop :=
  ∀ st, ∀ v ∈ e.stored st, 0 ≤ v.readiness ∧ v.readiness ≤ bound st

namespace CountersWithin

variable {e e' : Environment} {bound bound' : Storage → Nat} {withFields : Bool}

theorem mono (h : e.CountersWithin bound) (hle : ∀ st, bound st ≤ bound' st) :
    e.CountersWithin bound' := by
  intro st v hv
  have hbounds := h st v hv
  have hst := hle st
  omega

/-- Bounds that hold of more variables hold of these. -/
theorem of_subset (h : e.CountersWithin bound) (hsub : ∀ st v, e'.Holds st v → e.Holds st v) :
    e'.CountersWithin bound :=
  fun st v hv ↦ h st v (mem_stored.mpr (hsub st v (mem_stored.mp hv)))

/-- **Bounds that are not below one last**: a variable that gets a value has the counter one. -/
theorem extended (h : e.CountersWithin bound) (hone : ∀ st, 1 ≤ bound st) (he : e.Extends e') :
    e'.CountersWithin bound := by
  intro st v' hv'
  have hst := hone st
  obtain ⟨v, hv, hev⟩ | hnew := he.exists_stored_or hv'
  · have hbounds := h st v hv
    have hreadiness := hev.readiness
    omega
  · omega

/-- Local variables and fields are bounded apart. -/
theorem of_parts (hlocals : ∀ v ∈ e.stored .frame, 0 ≤ v.readiness ∧ v.readiness ≤ bound .frame)
    (hfields : ∀ v ∈ e.stored .object, 0 ≤ v.readiness ∧ v.readiness ≤ bound .object) :
    e.CountersWithin bound := by
  rintro (_ | _)
  · exact hlocals
  · exact hfields

/-- Variables that are added to the innermost scope have to keep to the bound themselves. -/
theorem append {vs : List Variable} (h : e.CountersWithin bound)
    (hvs : ∀ v ∈ vs, 0 ≤ v.readiness ∧ v.readiness ≤ bound .frame) :
    { e with current := ⟨e.current.declared ++ vs⟩ }.CountersWithin bound := by
  refine .of_parts (fun v hv ↦ ?_) (h .object)
  rw [stored, locals, List.flatMap_cons, List.append_assoc, List.mem_append] at hv
  obtain hv | hv := hv
  · exact h .frame v (List.mem_append_left _ hv)
  · obtain hv | hv := List.mem_append.mp hv
    · exact hvs v hv
    · exact h .frame v (List.mem_append_right _ hv)

theorem push (h : e.CountersWithin bound) : (e.push .empty).CountersWithin bound :=
  h.of_subset fun _ _ ↦ holds_push.mp

theorem leave (h : e.CountersWithin bound) : e.leave.CountersWithin bound :=
  h.of_subset fun _ _ ↦ holds_of_leave

/-- A frame starts with no variables but the fields. -/
theorem start (h : e.CountersWithin bound) : (Environment.start e.fields).CountersWithin bound :=
  .of_parts (fun _ hv ↦ absurd hv List.not_mem_nil) (h .object)

/-! ### Blocks that may be skipped -/

theorem enterConditional (h : e.CountersWithin bound) :
    (e.enterConditional withFields).CountersWithin (Storage.raised withFields bound) := by
  intro st v' hv'
  rw [Environment.enterConditional] at hv'
  rw [Storage.raised]
  split
  · next hw =>
    rw [stored_shift 1 hw] at hv'
    obtain ⟨v, hv, rfl⟩ := List.mem_map.mp hv'
    have hbounds := h st v hv
    rw [Variable.shift_readiness]
    split <;> omega
  · next hw =>
    rw [stored_shift_of_not 1 hw] at hv'
    exact h st v' hv'

theorem leaveConditional (h : e.CountersWithin (Storage.raised withFields bound)) :
    (e.shift (-1) withFields).CountersWithin bound := by
  intro st v' hv'
  by_cases hw : st = .frame ∨ withFields
  · rw [stored_shift (-1) hw] at hv'
    obtain ⟨v, hv, rfl⟩ := List.mem_map.mp hv'
    have hbounds := h st v hv
    rw [Storage.raised, if_pos hw] at hbounds
    rw [Variable.shift_readiness]
    split <;> omega
  · rw [stored_shift_of_not (-1) hw] at hv'
    have hbounds := h st v' hv'
    rwa [Storage.raised, if_neg hw] at hbounds

end CountersWithin

end Environment

end Pictograph
