import Pictograph.Proofs.Scope.Counters

/-!
# Leaving a conditional block undoes entering it

Between the two, variables are declared and given values, scopes come and go, and further
conditional blocks are entered and left. The counters go up and down with all of that, except those
of variables without a value, which are not shifted. In the end each variable has the counter it had
in front of the block, and the report of the block names what got a value in it.

Nothing is asked of the scopes that are opened inside and closed again. Even if their variables take
slots that are taken already, or have counters out of line, all that is forgotten with the scope.

## Main definitions

* `Environment.WellNested`: what a sequence of operations inside a block leads to.

## Main results

* `Environment.WellNested.toExtends`: inside a block variables evolve, and new ones are declared.
* `Environment.leave_undoes_enter`: what a conditional block leaves behind, and what it reports.
-/

namespace Pictograph

namespace Environment

/-- Operations lead from one environment to another: declarations in slots that are free, values
given to variables by their names and by their slots, and scopes and conditional blocks that are
entered and left in pairs. -/
inductive WellNested (withFields : Bool) : Environment → Environment → Prop
  /-- Nothing is done. -/
  | start (e : Environment) : WellNested withFields e e
  /-- A variable is declared, with a value or without one. -/
  | declare {e e' e'' : Environment} {v : Variable} (h : WellNested withFields e e')
      (hdeclare : e'.declare v = .ok e'') (hfree : ∀ w ∈ e'.stored .frame, w.slot ≠ v.slot)
      (hcounter : v.readiness = 0 ∨ v.readiness = 1) : WellNested withFields e e''
  /-- The variable that a name refers to is given a value. -/
  | assign {e e' : Environment} (h : WellNested withFields e e') (x : String) :
      WellNested withFields e (e'.update x Variable.settle)
  /-- The variable in a slot is given a value. -/
  | mark {e e' : Environment} (h : WellNested withFields e e') (slot : Slot) :
      WellNested withFields e (e'.settle slot)
  /-- A scope is entered and left. -/
  | scope {e e' inner e'' : Environment} {s left : Scope} (h : WellNested withFields e e')
      (hinner : WellNested withFields (e'.push s) inner) (hpop : inner.pop? = some (left, e'')) :
      WellNested withFields e e''
  /-- A conditional block is entered and left. -/
  | conditional {e e' inner : Environment} (h : WellNested withFields e e')
      (hinner : WellNested withFields (e'.enterConditional withFields) inner) :
      WellNested withFields e (inner.leaveConditional withFields).2

variable {e e' e'' : Environment} {v : Variable} {withFields : Bool}

/-- A declaration in a free slot keeps variables apart. -/
theorem Apart.declare (h : e.Apart) (hdeclare : e.declare v = .ok e')
    (hfree : ∀ w ∈ e.stored .frame, w.slot ≠ v.slot) : e'.Apart := by
  rw [eq_of_declare hdeclare]
  rintro (_ | _)
  · have hperm : (e.current.declared ++ [v] ++ e.outer.flatMap (·.declared)).Perm
        (v :: e.stored .frame) := by
      rw [List.append_assoc, List.singleton_append]
      exact List.perm_middle
    refine (hperm.map (·.slot)).nodup_iff.mpr (List.nodup_cons.mpr ⟨fun hmem ↦ ?_, h .frame⟩)
    obtain ⟨w, hw, hslot⟩ := List.mem_map.mp hmem
    exact hfree w hw hslot
  · exact h .object

namespace WellNested

/-- Whatever is done in a well-nested way, variables evolve, and new ones are declared in the
innermost scope. -/
theorem toExtends (h : WellNested withFields e e') : e.Extends e' := by
  induction h with
  | start e => exact .refl e
  | declare _ hdeclare _ hcounter ih => exact ih.trans (.declare hdeclare (by omega))
  | assign _ x ih => exact ih.trans (evolves_update_settle _ x).toExtends
  | mark _ slot ih => exact ih.trans (evolves_settle _ slot).toExtends
  | scope _ _ hpop ih ihinner => exact ih.trans (ihinner.leave hpop).toExtends
  | conditional _ _ ih ihinner => exact ih.trans ihinner.shift

/-- Variables stay in slots of their own. In a scope that is pushed they may not be, but behind it
they are. -/
theorem apart (h : WellNested withFields e e') (ha : e.Apart) : e'.Apart := by
  induction h with
  | start e => exact ha
  | declare _ hdeclare hfree _ ih => exact (ih ha).declare hdeclare hfree
  | assign _ x ih => exact (evolves_update_settle _ x).apart (ih ha)
  | mark _ slot ih => exact (evolves_settle _ slot).apart (ih ha)
  | scope _ hinner hpop ih _ => exact (hinner.toExtends.leave hpop).apart (ih ha)
  | conditional _ _ ih ihinner => exact (ihinner ((ih ha).shift 1 withFields)).shift (-1) withFields

end WellNested

/-- A block reports no slot twice. -/
theorem Apart.nodup_settledHere (h : e.Apart) (withFields : Bool) :
    (e.settledHere withFields).Nodup := by
  have hscope (l : List Variable) (hl : (l.map (·.slot)).Nodup) :
      ((l.filter (·.readiness == 1)).map (·.slot)).Nodup := (List.filter_sublist.map _).nodup hl
  have hframe : (e.locals.reverse.flatMap (·.settledHere)).Nodup := by
    have hperm := (List.reverse_perm e.locals).flatMap_right (·.settledHere)
    have heq : e.locals.flatMap (·.settledHere)
        = ((e.stored .frame).filter (·.readiness == 1)).map (·.slot) := by
      rw [stored, List.filter_flatMap, List.map_flatMap]
      rfl
    rw [hperm.nodup_iff, heq]
    exact hscope _ (h .frame)
  have hobject : (e.fields.elim [] (·.settledHere)).Nodup := by
    have hfields := h .object
    rw [stored] at hfields
    cases hf : e.fields with
    | none => exact List.nodup_nil
    | some s =>
      rw [hf] at hfields
      exact hscope _ hfields
  rw [settledHere]
  refine List.nodup_append.mpr ⟨hframe.map fun _ _ h ↦ congrArg Slot.id h, ?_, ?_⟩
  · split
    · exact hobject.map fun _ _ h ↦ congrArg Slot.id h
    · exact List.nodup_nil
  · rintro slot hslot slot' hslot' rfl
    obtain ⟨id, -, rfl⟩ := List.mem_map.mp hslot
    obtain ⟨id', -, hid'⟩ := List.mem_map.mp hslot'
    cases hid'

/-- **Leaving a conditional block undoes entering it.** Let the counters be non-negative and the
variables in slots of their own when the block is entered. Whatever is done in a well-nested way
until it is left, behind it each variable that was there in front of it has the counter it had, with
the exception of fields that are not included. The block reports, once each, the slots of the
variables, fields only if they are included, that have a value when the block is left and either had
the counter zero when it was entered or were declared since. -/
theorem leave_undoes_enter {slots : List Slot} (hpos : ∀ st, ∀ v ∈ e.stored st, 0 ≤ v.readiness)
    (ha : e.Apart) (h : WellNested withFields (e.enterConditional withFields) e')
    (hleave : e'.leaveConditional withFields = (slots, e'')) :
    (∀ slot v, (slot.storage = .frame ∨ withFields) → e.occupant? slot = some v →
      ∃ v', e''.occupant? slot = some v' ∧ v'.name = v.name ∧ v'.readiness = v.readiness)
    ∧ slots.Nodup
    ∧ ∀ slot, slot ∈ slots ↔ (slot.storage = .frame ∨ withFields)
      ∧ (∃ c, e'.counter? slot = some c ∧ 0 < c)
      ∧ (e.counter? slot = none ∨ e.counter? slot = some 0) := by
  have hextends := h.toExtends
  have hapart : e'.Apart := h.apart (ha.shift 1 withFields)
  cases hleave
  refine ⟨fun slot v hw hv ↦ ?_, hapart.nodup_settledHere withFields, fun slot ↦ ?_⟩
  · have hcounter := hpos _ v (mem_stored_of_occupant? hv).1
    obtain ⟨v', hv', hev, hreadiness⟩ := hextends.exists_occupant?_shift hapart hw hv hcounter
    exact ⟨v', hv', hev.name, hreadiness⟩
  · rw [hapart.mem_settledHere]
    exact and_congr_right fun hw ↦ hextends.counter?_eq_one_iff hapart hw (hpos _)

end Environment

namespace Sample

/-- A variable for an integer. -/
def counted (name : String) (slot : Nat) (readiness : Int) : Variable where
  name := name
  type := .integer
  slot := slot
  readiness := readiness
  span := .nowhere

/-- An environment with two variables and a field. Only `y` has a value. -/
def counters : Environment where
  current := ⟨[counted "x" 0 0, counted "y" 1 1]⟩
  fields := some ⟨[counted "f" 0 0]⟩

/-- A conditional block is entered, `x` is given a value, and in a scope, which has a variable in
the slot of `x`, the field is. -/
def clashing : Environment :=
  (((counters.enterConditional true).update "x" Variable.settle).push
    ⟨[counted "y" 0 (-3)]⟩).update "f" Variable.settle

/-- Behind the scope `z` is declared with a value. -/
def declaring : Environment := { clashing.leave with
  current := ⟨clashing.leave.current.declared ++ [counted "z" 7 1]⟩ }

/-- A further conditional block gives `z` and the field values that they have already. -/
def marking : Environment :=
  ((((declaring.enterConditional true).update "z" Variable.settle).settle
    ⟨.object, 0⟩).leaveConditional true).2

theorem wellNested_marking :
    Environment.WellNested true (counters.enterConditional true) marking := by
  have hassign : Environment.WellNested true (counters.enterConditional true)
      ((counters.enterConditional true).update "x" Variable.settle) := .assign (.start _) "x"
  have hpop : clashing.pop? = some (⟨[counted "y" 0 (-3)]⟩, clashing.leave) := rfl
  have hscope : Environment.WellNested true (counters.enterConditional true) clashing.leave :=
    hassign.scope (.assign (.start _) "f") hpop
  have hdeclare : Environment.WellNested true (counters.enterConditional true) declaring :=
    hscope.declare (v := counted "z" 7 1) rfl (by decide +kernel) (.inr rfl)
  exact hdeclare.conditional (.mark (.assign (.start _) "z") ⟨.object, 0⟩)

end Sample

/-- A block gives values to `x`, to the field and to `z`, which is declared in it. Behind it `x` has
none again, `y` has its value, and the block reports the other three. -/
theorem leave_undoes_enter_sample :
    (∀ st, ∀ v ∈ Sample.counters.stored st, 0 ≤ v.readiness) ∧ Sample.counters.Apart
    ∧ Environment.WellNested true (Sample.counters.enterConditional true) Sample.marking
    ∧ ∃ slots e'', Sample.marking.leaveConditional true = (slots, e'')
      ∧ e''.counter? ⟨.frame, 0⟩ = some 0 ∧ e''.counter? ⟨.frame, 1⟩ = some 1
      ∧ ⟨.frame, 0⟩ ∈ slots ∧ ⟨.frame, 7⟩ ∈ slots ∧ ⟨.object, 0⟩ ∈ slots
      ∧ ⟨.frame, 1⟩ ∉ slots := by
  have hpos : ∀ st, ∀ v ∈ Sample.counters.stored st, 0 ≤ v.readiness := by
    rintro (_ | _) <;> decide +kernel
  have hapart : Sample.counters.Apart := by
    rintro (_ | _) <;> decide +kernel
  obtain ⟨hkept, -, hreport⟩ :=
    Environment.leave_undoes_enter hpos hapart Sample.wellNested_marking rfl
  have hcounter {slot : Slot} {v : Variable} (hw : slot.storage = .frame ∨ (true : Bool))
      (hv : Sample.counters.occupant? slot = some v) :
      ((Sample.marking.leaveConditional true).2).counter? slot = some v.readiness := by
    obtain ⟨v', hv', -, hreadiness⟩ := hkept slot v hw hv
    exact Environment.counter?_eq_some.mpr ⟨v', hv', hreadiness⟩
  refine ⟨hpos, hapart, Sample.wellNested_marking, _, _, rfl,
    hcounter (v := Sample.counted "x" 0 0) (.inl rfl) rfl,
    hcounter (v := Sample.counted "y" 1 1) (.inl rfl) rfl, ?_, ?_, ?_, ?_⟩
  · exact (hreport _).mpr ⟨.inl rfl, ⟨1, by decide +kernel, by decide⟩, .inr (by decide +kernel)⟩
  · exact (hreport _).mpr ⟨.inl rfl, ⟨1, by decide +kernel, by decide⟩, .inl (by decide +kernel)⟩
  · exact (hreport _).mpr ⟨.inr rfl, ⟨1, by decide +kernel, by decide⟩, .inr (by decide +kernel)⟩
  · intro hmem
    have hfresh := ((hreport _).mp hmem).2.2
    revert hfresh
    decide +kernel

end Pictograph
