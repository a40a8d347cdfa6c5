import Pictograph.Proofs.Scope.Evolution

/-!
# The counter in a slot

Names may hide one another, but slots do not: in one place there is one variable. So a slot is what
a variable is known by while scopes come and go, and the counter of a variable is the counter in its
slot. This module reads the counters off an environment and says what the operations on environments
do to them.

`Environment.Grows` knows the slots of new variables by two bounds. Nothing of that is needed for
the counters, and where slots are handed out in any order there are no such bounds. An environment
*extends* another if its new variables are somewhere, without a value or with one that was given to
them since.

## Main definitions

* `Environment.stored`, `Environment.occupant?`, `Environment.counter?`: the variables in one place,
  the one in a slot, and its counter.
* `Environment.Apart`: no two variables are in one slot.
* `Environment.Evolves`, `Environment.Extends`: what may happen to an environment that gets no new
  variables, and to one that gets new ones.

## Main results

* `Environment.occupant?_shift`, `Environment.occupant?_settle`: what a shift and settling do.
* `Environment.Extends.exists_occupant?`: a variable stays in its slot.
* `Environment.Extends.leave`, `Environment.Extends.shift`: scopes and conditional blocks.
* `Environment.Extends.exists_occupant?_shift`, `Environment.Extends.counter?_eq_one_iff`: what is
  left of a conditional block.
-/

namespace Pictograph

namespace Environment

/-! ## Variables by their slots -/

/-- The variables in reach that are stored in one place, the innermost scope first. -/
def stored (e : Environment) : Storage → List Variable
  | .frame => e.locals.flatMap (·.declared)
  | .object => e.fields.elim [] (·.declared)

/-- The variable in a slot. -/
def occupant? (e : Environment) (slot : Slot) : Option Variable :=
  (e.stored slot.storage).find? (·.slot == slot.id)

/-- The counter of the variable in a slot. -/
def counter? (e : Environment) (slot : Slot) : Option Int := (e.occupant? slot).map (·.readiness)

/-- No two variables are in one slot. -/
def Apart (e : Environment) : Prop := ∀ st, ((e.stored st).map (·.slot)).Nodup

variable {e e' e'' : Environment} {st : Storage} {slot : Slot} {v v' : Variable}
  {withFields : Bool}

theorem mem_stored : v ∈ e.stored st ↔ e.Holds st v := by
  cases st with
  | frame => exact List.mem_flatMap
  | object =>
    rw [stored, Holds]
    cases e.fields with
    | none => simp
    | some s => simp

theorem mem_stored_of_occupant? (h : e.occupant? slot = some v) :
    v ∈ e.stored slot.storage ∧ v.slot = slot.id := by
  have hslot := List.find?_some h
  exact ⟨List.mem_of_find?_eq_some h, eq_of_beq hslot⟩

theorem Apart.occupant?_eq_some (h : e.Apart) (hv : v ∈ e.stored slot.storage)
    (hslot : v.slot = slot.id) : e.occupant? slot = some v := by
  obtain ⟨w, hw⟩ : ∃ w, e.occupant? slot = some w := by
    rw [← Option.isSome_iff_exists, occupant?, List.find?_isSome]
    exact ⟨v, hv, beq_iff_eq.mpr hslot⟩
  obtain ⟨hmem, hslot'⟩ := mem_stored_of_occupant? hw
  rw [hw, List.inj_on_of_nodup_map (h slot.storage) hmem hv (hslot'.trans hslot.symm)]

theorem Apart.occupant?_self (h : e.Apart) (hv : v ∈ e.stored st) :
    e.occupant? ⟨st, v.slot⟩ = some v :=
  h.occupant?_eq_some hv rfl

/-- Behind a scope the variable in a slot is the one that was in it before the scope was left. -/
theorem Apart.occupant?_of_leave (h : e.Apart) (hv : e.leave.occupant? slot = some v) :
    e.occupant? slot = some v := by
  obtain ⟨hmem, hslot⟩ := mem_stored_of_occupant? hv
  exact h.occupant?_eq_some (mem_stored.mpr (holds_of_leave (mem_stored.mp hmem))) hslot

theorem counter?_eq_some {c : Int} :
    e.counter? slot = some c ↔ ∃ v, e.occupant? slot = some v ∧ v.readiness = c :=
  Option.map_eq_some_iff

theorem Distinct.apart {n : Nat} (h : e.Distinct n) : e.Apart := by
  rintro (_ | _)
  · exact h.frame
  · have hobject := h.object
    rw [stored]
    cases hf : e.fields with
    | none => exact List.nodup_nil
    | some s => exact hobject s hf

/-! ### Shifts -/

theorem stored_shift (delta : Int) (hw : st = .frame ∨ withFields) :
    (e.shift delta withFields).stored st = (e.stored st).map (·.shift delta) := by
  cases st with
  | frame =>
    have hlocals : (e.shift delta withFields).locals = e.locals.map (·.shift delta) := rfl
    rw [stored, stored, hlocals, List.map_flatMap, List.flatMap_map]
    rfl
  | object =>
    rw [stored, stored, shift, if_pos (hw.resolve_left Storage.noConfusion)]
    cases e.fields <;> rfl

/-- A shift may leave the fields alone. -/
theorem stored_shift_of_not (delta : Int) (hw : ¬ (st = .frame ∨ withFields)) :
    (e.shift delta withFields).stored st = e.stored st := by
  rw [not_or, Bool.not_eq_true] at hw
  obtain ⟨hst, rfl⟩ := hw
  cases st with
  | frame => exact absurd rfl hst
  | object => rfl

/-- A shift changes the counters and nothing else. -/
theorem occupant?_shift (delta : Int) (hw : slot.storage = .frame ∨ withFields) :
    (e.shift delta withFields).occupant? slot = (e.occupant? slot).map (·.shift delta) := by
  rw [occupant?, occupant?, stored_shift delta hw, List.find?_map]
  have htest : (fun v : Variable ↦ v.slot == slot.id) ∘ Variable.shift delta
      = fun v ↦ v.slot == slot.id := funext fun v ↦ by
    rw [Function.comp_apply, Variable.shift_slot]
  rw [htest]

theorem Apart.shift (h : e.Apart) (delta : Int) (withFields : Bool) :
    (e.shift delta withFields).Apart := by
  intro st
  by_cases hw : st = .frame ∨ withFields
  · rw [stored_shift delta hw, List.map_map]
    have hslot : Variable.slot ∘ Variable.shift delta = Variable.slot :=
      funext fun v ↦ Variable.shift_slot delta v
    rw [hslot]
    exact h st
  · rw [stored_shift_of_not delta hw]
    exact h st

/-! ### Settling -/

theorem updateFirst_append {α : Type} {test : α → Bool} {f : α → α} (l l' : List α) :
    updateFirst test f (l ++ l')
      = if l.any test then updateFirst test f l ++ l' else l ++ updateFirst test f l' := by
  induction l with
  | nil => rfl
  | cons a l ih =>
    rw [List.cons_append, updateFirst, updateFirst, List.any_cons]
    by_cases ha : test a
    · rw [if_pos ha, if_pos ha, ha, Bool.true_or, if_pos rfl, List.cons_append]
    · rw [if_neg ha, if_neg ha, ih, eq_false_of_ne_true ha, Bool.false_or]
      split <;> rfl

/-- The first variable that passes a test is the first one in the first scope that has one. -/
theorem flatMap_updateFirst (test : Variable → Bool) (f : Variable → Variable) (l : List Scope) :
    (updateFirst (·.declared.any test) (fun s ↦ ⟨updateFirst test f s.declared⟩) l).flatMap
        (·.declared)
      = updateFirst test f (l.flatMap (·.declared)) := by
  induction l with
  | nil => rfl
  | cons s l ih =>
    rw [updateFirst, List.flatMap_cons, updateFirst_append, ← ih]
    split <;> rw [List.flatMap_cons]

theorem stored_settle (e : Environment) (slot : Slot) (st : Storage) : (e.settle slot).stored st
    = if slot.storage = st then updateFirst (·.slot == slot.id) Variable.settle (e.stored st)
      else e.stored st := by
  obtain ⟨_ | _, id⟩ := slot
  · cases st with
    | frame =>
      rw [if_pos rfl, settle, stored, locals_withLocals (updateFirst_ne_nil e.locals_ne_nil)]
      exact flatMap_updateFirst _ _ _
    | object =>
      rw [if_neg Storage.noConfusion, settle, stored, fields_withLocals]
      rfl
  · cases st with
    | frame => rfl
    | object =>
      rw [if_pos rfl, settle, stored, stored]
      cases e.fields <;> rfl

/-- A change of the first element that passes a test does not disturb the search for an element that
fails it. -/
theorem find?_updateFirst_of_disjoint {α : Type} {test test' : α → Bool} {f : α → α}
    (h : ∀ a, test a → ¬ test' a ∧ ¬ test' (f a)) (l : List α) :
    (updateFirst test f l).find? test' = l.find? test' := by
  induction l with
  | nil => rfl
  | cons a l ih =>
    rw [updateFirst]
    by_cases ha : test a
    · rw [if_pos ha, List.find?_cons_of_neg (h a ha).2, List.find?_cons_of_neg (h a ha).1]
    · rw [if_neg ha, List.find?_cons, List.find?_cons, ih]

/-- A change of the first variable in a slot changes the variable in the slot and no other. -/
theorem occupant?_of_updateFirst {f : Variable → Variable}
    (hf : ∀ v, v.slot = slot.id → (f v).slot = slot.id)
    (h : ∀ st, e'.stored st
      = if slot.storage = st then updateFirst (·.slot == slot.id) f (e.stored st) else e.stored st)
    (slot' : Slot) : e'.occupant? slot'
      = if slot = slot' then (e.occupant? slot').map f else e.occupant? slot' := by
  rw [occupant?, h, occupant?]
  by_cases hst : slot.storage = slot'.storage
  · rw [if_pos hst]
    by_cases hid : slot.id = slot'.id
    · have heq : slot = slot' := by
        cases slot
        cases slot'
        exact Slot.mk.injEq .. ▸ ⟨hst, hid⟩
      rw [if_pos heq, ← hid]
      refine find?_updateFirst (fun v hv ↦ ?_) _
      rw [beq_iff_eq, hf v (eq_of_beq hv)]
    · rw [if_neg fun h ↦ hid (congrArg Slot.id h)]
      refine find?_updateFirst_of_disjoint (fun v hv ↦ ?_) _
      rw [beq_iff_eq, beq_iff_eq, hf v (eq_of_beq hv), eq_of_beq hv]
      exact ⟨hid, hid⟩
  · rw [if_neg hst, if_neg fun h ↦ hst (congrArg Slot.storage h)]

/-- Settling changes the variable in the slot and no other. -/
theorem occupant?_settle (e : Environment) (slot slot' : Slot) : (e.settle slot).occupant? slot'
    = if slot = slot' then (e.occupant? slot').map Variable.settle else e.occupant? slot' :=
  occupant?_of_updateFirst (fun v hv ↦ (v.settle_slot).trans hv) (stored_settle e slot) slot'

theorem counter?_settle (e : Environment) (slot slot' : Slot) : (e.settle slot).counter? slot'
    = if slot = slot' then (e.counter? slot').map fun c ↦ if c ≤ 0 then 1 else c
      else e.counter? slot' := by
  rw [counter?, occupant?_settle, counter?]
  split
  · rw [Option.map_map, Option.map_map]
    congr 1
    funext v
    rw [Function.comp_apply, Function.comp_apply, Variable.settle]
    split <;> rfl
  · rfl

/-- Settling slots one after the other gives a value to what has none in one of them. -/
theorem counter?_foldl_settle (slots : List Slot) (e : Environment) (slot : Slot) :
    (slots.foldl settle e).counter? slot
      = if slot ∈ slots then (e.counter? slot).map fun c ↦ if c ≤ 0 then 1 else c
        else e.counter? slot := by
  induction slots generalizing e with
  | nil => rfl
  | cons slot' slots ih =>
    rw [List.foldl_cons, ih, counter?_settle]
    by_cases heq : slot' = slot
    · subst heq
      rw [if_pos rfl, if_pos List.mem_cons_self, Option.map_map]
      -- settling twice is settling once
      have htwice : (fun c : Int ↦ if c ≤ 0 then 1 else c) ∘ (fun c ↦ if c ≤ 0 then 1 else c)
          = fun c ↦ if c ≤ 0 then 1 else c := by
        funext c
        rw [Function.comp_apply]
        by_cases hc : c ≤ 0
        · rw [if_pos hc]
          exact if_neg (by omega)
        · rw [if_neg hc]
          exact if_neg hc
      rw [htwice, ite_self]
    · have hmem : slot ∈ slot' :: slots ↔ slot ∈ slots :=
        List.mem_cons.trans (or_iff_right (Ne.symm heq))
      simp only [heq, hmem, if_false]

/-! ### Reports -/

/-- A block reports the slots with the counter one, and fields only if they are included. -/
theorem mem_settledHere : slot ∈ e.settledHere withFields ↔ (slot.storage = .frame ∨ withFields)
    ∧ ∃ v ∈ e.stored slot.storage, v.readiness = 1 ∧ v.slot = slot.id := by
  have hscope (s : Scope) (id : Nat) : id ∈ s.settledHere
      ↔ ∃ v ∈ s.declared, v.readiness = 1 ∧ v.slot = id := by
    rw [Scope.settledHere, List.mem_map]
    simp only [List.mem_filter, beq_iff_eq, and_assoc]
  rw [settledHere, List.mem_append, List.mem_map, List.mem_map]
  obtain ⟨_ | _, id⟩ := slot
  · simp only [List.mem_flatMap, List.mem_reverse, hscope, Slot.mk.injEq, reduceCtorEq, true_and,
      false_and, and_false, exists_false, or_false, exists_eq_right, true_or, stored]
    constructor
    · rintro ⟨s, hs, v, hv, hslot⟩
      exact ⟨v, ⟨s, hs, hv⟩, hslot⟩
    · rintro ⟨v, ⟨s, hs, hv⟩, hslot⟩
      exact ⟨s, hs, v, hv, hslot⟩
  · cases withFields <;> cases hf : e.fields <;> simp [stored, hf, hscope]

/-- In slots of their own, variables are reported by their counters. -/
theorem Apart.mem_settledHere (h : e.Apart) : slot ∈ e.settledHere withFields
    ↔ (slot.storage = .frame ∨ withFields) ∧ e.counter? slot = some 1 := by
  rw [Environment.mem_settledHere, counter?_eq_some]
  refine and_congr_right fun _ ↦ ⟨?_, ?_⟩
  · rintro ⟨v, hv, hone, hslot⟩
    exact ⟨v, h.occupant?_eq_some hv hslot, hone⟩
  · rintro ⟨v, hv, hone⟩
    obtain ⟨hmem, hslot⟩ := mem_stored_of_occupant? hv
    exact ⟨v, hmem, hone, hslot⟩

/-! ## Environments that extend others -/

/-- What may happen to an environment that gets no new variables. -/
structure Evolves (e e' : Environment) : Prop where
  locals : List.Forall₂ Scope.Evolves e.locals e'.locals
  fields : Option.Rel Scope.Evolves e.fields e'.fields

/-- What may happen to an environment: all variables evolve, and the innermost scope gets new ones,
without a value or with one that was just given to them. -/
structure Extends (e e' : Environment) : Prop where
  current : ∃ old new, e'.current.declared = old ++ new
    ∧ List.Forall₂ Variable.Evolves e.current.declared old
    ∧ ∀ v ∈ new, 0 ≤ v.readiness ∧ v.readiness ≤ 1
  outer : List.Forall₂ Scope.Evolves e.outer e'.outer
  fields : Option.Rel Scope.Evolves e.fields e'.fields

namespace Evolves

theorem toExtends (h : e.Evolves e') : e.Extends e' := by
  obtain ⟨hlocals, hfields⟩ := h
  obtain ⟨hcurrent, houter⟩ := List.forall₂_cons.mp hlocals
  exact ⟨⟨e'.current.declared, [], (List.append_nil _).symm, hcurrent, by simp⟩, houter, hfields⟩

/-- Variables that evolve stay where they are. -/
theorem map_slot_stored (h : e.Evolves e') (st : Storage) :
    (e'.stored st).map (·.slot) = (e.stored st).map (·.slot) := by
  cases st with
  | frame => exact map_slot_of_scopes h.locals
  | object =>
    have hfields := h.fields
    rw [stored, stored]
    cases hf : e.fields with
    | none =>
      rw [hf] at hfields
      generalize e'.fields = fields' at hfields
      cases hfields
      rfl
    | some s =>
      rw [hf] at hfields
      obtain ⟨s', hs', hs⟩ := exists_of_rel_left hfields
      rw [hs']
      exact map_slot_of_evolves hs

theorem apart (h : e.Evolves e') (ha : e.Apart) : e'.Apart := by
  intro st
  rw [h.map_slot_stored]
  exact ha st

end Evolves

/-- An environment that grows between equal bounds gets no new variables. -/
theorem Grows.evolves {n : Nat} (h : e.Grows n n e') : e.Evolves e' := by
  obtain ⟨⟨old, new, he, hold, hnew, -⟩, houter, hfields⟩ := h
  have hnone : new = [] := List.eq_nil_iff_forall_not_mem.mpr fun v hv ↦
    Nat.not_lt.mpr (hnew v hv).1 (hnew v hv).2.1
  refine ⟨List.forall₂_cons.mpr ⟨?_, houter⟩, hfields⟩
  rw [Scope.Evolves, he, hnone, List.append_nil]
  exact hold

theorem evolves_update_settle (e : Environment) (x : String) :
    e.Evolves (e.update x Variable.settle) := by
  have hgrows : e.Grows 0 0 (e.update x Variable.settle) := grows_update fun _ v _ ↦ .settle v
  exact hgrows.evolves

theorem evolves_settle (e : Environment) (slot : Slot) : e.Evolves (e.settle slot) := by
  have hgrows : e.Grows 0 0 (e.settle slot) := grows_settle slot
  exact hgrows.evolves

theorem Grows.toExtends {lo hi : Nat} (h : e.Grows lo hi e') : e.Extends e' := by
  obtain ⟨⟨old, new, he, hold, hnew, -⟩, houter, hfields⟩ := h
  exact ⟨⟨old, new, he, hold, fun v hv ↦ (hnew v hv).2.2⟩, houter, hfields⟩

namespace Extends

theorem refl (e : Environment) : e.Extends e := (Grows.refl 0 0 e).toExtends

theorem trans (h : e.Extends e') (h' : e'.Extends e'') : e.Extends e'' := by
  refine ⟨?_, forall₂_scopes_trans h.outer h'.outer, fields_trans h.fields h'.fields⟩
  obtain ⟨old, new, he, hold, hnew⟩ := h.current
  obtain ⟨old', new', he', hold', hnew'⟩ := h'.current
  rw [he] at hold'
  obtain ⟨old₁, new₁, rfl, ho, hn⟩ := evolves_append_split hold'
  refine ⟨old₁, new₁ ++ new', by rw [he', List.append_assoc], forall₂_evolves_trans hold ho, ?_⟩
  rintro v hv
  obtain hv | hv := List.mem_append.mp hv
  · obtain ⟨w, hw, hev⟩ := exists_mem_of_forall₂ hn hv
    have hbounds := hnew w hw
    have hreadiness := hev.readiness
    omega
  · exact hnew' v hv

theorem declare (hd : e.declare v = .ok e') (hr : 0 ≤ v.readiness ∧ v.readiness ≤ 1) :
    e.Extends e' := by
  rw [eq_of_declare hd]
  refine ⟨⟨e.current.declared, [v], rfl, List.forall₂_same.mpr fun w _ ↦ .refl w, ?_⟩,
    forall₂_scopes_refl _, fields_refl _⟩
  simpa using hr

/-- Leaving a block forgets what was declared in it, whatever it was entered with. -/
theorem leave {s left : Scope} (h : (e.push s).Extends e') (hpop : e'.pop? = some (left, e'')) :
    e.Evolves e'' := by
  obtain ⟨-, houter, hfields⟩ := h
  unfold pop? at hpop
  split at hpop
  · cases hpop
  · next s' outer ho =>
    cases hpop
    rw [ho] at houter
    exact ⟨houter, hfields⟩

/-- Leaving a conditional block undoes entering it. -/
theorem shift (h : (e.enterConditional withFields).Extends e') :
    e.Extends (e'.shift (-1) withFields) := by
  refine ⟨?_, ?_, ?_⟩
  · obtain ⟨old, new, he, hold, hnew⟩ := h.current
    refine ⟨old.map (·.shift (-1)), new.map (·.shift (-1)), ?_, Scope.forall₂_shift hold, ?_⟩
    · rw [Environment.shift, Scope.shift, he, List.map_append]
    · intro v hv
      obtain ⟨w, hw, rfl⟩ := List.mem_map.mp hv
      have hbounds := hnew w hw
      rw [Variable.shift_readiness]
      split <;> omega
  · have houter := h.outer
    rw [enterConditional, Environment.shift, List.forall₂_map_left_iff] at houter
    rw [Environment.shift, List.forall₂_map_right_iff]
    exact houter.imp fun _ _ hs ↦ hs.shift
  · have hfields := h.fields
    cases withFields with
    | false => exact hfields
    | true => exact fields_shift hfields

/-! ### Slots -/

/-- A variable is still among those in reach. -/
theorem exists_stored (h : e.Extends e') (hv : v ∈ e.stored st) :
    ∃ v' ∈ e'.stored st, v.Evolves v' := by
  cases st with
  | frame =>
    rw [stored, locals, List.flatMap_cons, List.mem_append] at hv
    rw [stored, locals, List.flatMap_cons]
    obtain hv | hv := hv
    · obtain ⟨old, new, he, hold, -⟩ := h.current
      obtain ⟨v', hv', hev⟩ := exists_mem_of_forall₂_left hold hv
      rw [he]
      exact ⟨v', List.mem_append_left _ (List.mem_append_left _ hv'), hev⟩
    · obtain ⟨s, hs, hv⟩ := List.mem_flatMap.mp hv
      obtain ⟨s', hs', he⟩ := exists_mem_of_forall₂_left h.outer hs
      obtain ⟨v', hv', hev⟩ := exists_mem_of_forall₂_left he hv
      exact ⟨v', List.mem_append_right _ (List.mem_flatMap.mpr ⟨s', hs', hv'⟩), hev⟩
  | object =>
    obtain ⟨s, hs, hv⟩ := mem_stored.mp hv
    have hfields := h.fields
    rw [hs] at hfields
    obtain ⟨s', hs', he⟩ := exists_of_rel_left hfields
    obtain ⟨v', hv', hev⟩ := exists_mem_of_forall₂_left he hv
    exact ⟨v', mem_stored.mpr ⟨s', hs', hv'⟩, hev⟩

/-- A variable in reach is an old one or was declared since. -/
theorem exists_stored_or (h : e.Extends e') (hv' : v' ∈ e'.stored st) :
    (∃ v ∈ e.stored st, v.Evolves v') ∨ 0 ≤ v'.readiness ∧ v'.readiness ≤ 1 := by
  cases st with
  | frame =>
    rw [stored, locals, List.flatMap_cons, List.mem_append] at hv'
    obtain hv' | hv' := hv'
    · obtain ⟨old, new, he, hold, hnew⟩ := h.current
      rw [he] at hv'
      obtain hv' | hv' := List.mem_append.mp hv'
      · obtain ⟨v, hv, hev⟩ := exists_mem_of_forall₂ hold hv'
        exact .inl ⟨v, mem_stored.mpr ⟨_, List.mem_cons_self, hv⟩, hev⟩
      · exact .inr (hnew v' hv')
    · obtain ⟨s', hs', hv'⟩ := List.mem_flatMap.mp hv'
      obtain ⟨s, hs, he⟩ := exists_mem_of_forall₂ h.outer hs'
      obtain ⟨v, hv, hev⟩ := exists_mem_of_forall₂ he hv'
      exact .inl ⟨v, mem_stored.mpr ⟨s, List.mem_cons_of_mem _ hs, hv⟩, hev⟩
  | object =>
    obtain ⟨s', hs', hv'⟩ := mem_stored.mp hv'
    have hfields := h.fields
    rw [hs'] at hfields
    obtain ⟨s, hs, he⟩ := exists_of_rel_right hfields
    obtain ⟨v, hv, hev⟩ := exists_mem_of_forall₂ he hv'
    exact .inl ⟨v, mem_stored.mpr ⟨s, hs, hv⟩, hev⟩

/-- **A variable stays in its slot.** -/
theorem exists_occupant? (h : e.Extends e') (ha : e'.Apart) (hv : e.occupant? slot = some v) :
    ∃ v', e'.occupant? slot = some v' ∧ v.Evolves v' := by
  obtain ⟨hmem, hslot⟩ := mem_stored_of_occupant? hv
  obtain ⟨v', hmem', hev⟩ := h.exists_stored hmem
  exact ⟨v', ha.occupant?_eq_some hmem' (hev.slot.trans hslot), hev⟩

/-- A variable in a slot that was free was declared since. -/
theorem readiness_of_free (h : e.Extends e') (hfree : e.occupant? slot = none)
    (hv' : e'.occupant? slot = some v') : 0 ≤ v'.readiness ∧ v'.readiness ≤ 1 := by
  obtain ⟨hmem', hslot'⟩ := mem_stored_of_occupant? hv'
  obtain ⟨v, hmem, hev⟩ | hbounds := h.exists_stored_or hmem'
  · rw [occupant?, List.find?_eq_none] at hfree
    exact absurd (beq_iff_eq.mpr (hev.slot.symm.trans hslot')) (hfree v hmem)
  · exact hbounds

/-! ### Conditional blocks -/

/-- Behind a conditional block a variable has the counter that it had in front of it. -/
theorem exists_occupant?_shift (h : (e.enterConditional withFields).Extends e') (ha : e'.Apart)
    (hw : slot.storage = .frame ∨ withFields) (hv : e.occupant? slot = some v)
    (hpos : 0 ≤ v.readiness) : ∃ v', (e'.shift (-1) withFields).occupant? slot = some v'
      ∧ v.Evolves v' ∧ v'.readiness = v.readiness := by
  have hentered : (e.enterConditional withFields).occupant? slot = some (v.shift 1) := by
    rw [enterConditional, occupant?_shift 1 hw, hv, Option.map_some]
  obtain ⟨v', hv', hev⟩ := h.exists_occupant? ha hentered
  refine ⟨v'.shift (-1), ?_, hev.shift, ?_⟩
  · rw [occupant?_shift (-1) hw, hv', Option.map_some]
  · have hreadiness := hev.readiness
    rw [Variable.shift_readiness] at hreadiness
    rw [Variable.shift_readiness]
    split at hreadiness <;> split <;> omega

/-- A counter is one at the end of a conditional block just if the variable has a value there and
had none in front of the block, where it may not have been declared yet. -/
theorem counter?_eq_one_iff (h : (e.enterConditional withFields).Extends e') (ha : e'.Apart)
    (hw : slot.storage = .frame ∨ withFields)
    (hpos : ∀ v ∈ e.stored slot.storage, 0 ≤ v.readiness) :
    e'.counter? slot = some 1 ↔ (∃ c, e'.counter? slot = some c ∧ 0 < c)
      ∧ (e.counter? slot = none ∨ e.counter? slot = some 0) := by
  have hentered : (e.enterConditional withFields).occupant? slot
      = (e.occupant? slot).map (·.shift 1) := occupant?_shift 1 hw
  cases hv : e.occupant? slot with
  | none =>
    rw [hv, Option.map_none] at hentered
    have hnone : e.counter? slot = none := by rw [counter?, hv, Option.map_none]
    refine ⟨fun hone ↦ ⟨⟨1, hone, Int.one_pos⟩, .inl hnone⟩, ?_⟩
    rintro ⟨⟨c, hc, hlt⟩, -⟩
    obtain ⟨v', hv', rfl⟩ := counter?_eq_some.mp hc
    have hbounds := h.readiness_of_free hentered hv'
    have hone : v'.readiness = 1 := by omega
    rw [hc, hone]
  | some v =>
    rw [hv, Option.map_some] at hentered
    obtain ⟨v', hv', hev⟩ := h.exists_occupant? ha hentered
    have hc' : e'.counter? slot = some v'.readiness := by rw [counter?, hv', Option.map_some]
    have hc : e.counter? slot = some v.readiness := by rw [counter?, hv, Option.map_some]
    have hv0 := hpos v (mem_stored_of_occupant? hv).1
    have hreadiness := hev.readiness
    rw [Variable.shift_readiness] at hreadiness
    simp only [hc', hc, Option.some.injEq, reduceCtorEq, false_or, exists_eq_left']
    split at hreadiness <;> omega

end Extends

end Environment

end Pictograph
