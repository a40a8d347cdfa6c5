import Pictograph.Proofs.Scope.Counters

/-!
# Names and slots

Code names variables by their slots, sources by their names. Changing the variable that a name
refers to changes the variable in its slot and no other. But while code is analysed a name may come
to refer to another variable: to one that the innermost scope has declared since.

## Main results

* `Environment.resolve?_eq_some`: what a name refers to is the first variable of that name.
* `Environment.Apart.occupant?_update`: changing the variable that a name refers to.
* `Environment.Extends.exists_resolve?`, `Environment.Grows.exists_resolve?_new`: a name refers to
  the same variable as before just if the innermost scope has not declared it since.
-/

namespace Pictograph

/-! ## First matches -/

/-- Two tests that the same element is the first to pass single out the same element. -/
theorem updateFirst_eq_of_find? {α : Type} {test test' : α → Bool} {f : α → α} {l : List α} {a : α}
    (h : l.find? test = some a) (h' : l.find? test' = some a) :
    updateFirst test f l = updateFirst test' f l := by
  induction l with
  | nil => rfl
  | cons b l ih =>
    rw [updateFirst, updateFirst]
    by_cases hb : test b
    · rw [List.find?_cons_of_pos hb] at h
      cases h
      rw [if_pos hb, if_pos (List.find?_some h')]
    · rw [List.find?_cons_of_neg hb] at h
      by_cases hb' : test' b
      · rw [List.find?_cons_of_pos hb'] at h'
        cases h'
        exact absurd (List.find?_some h) hb
      · rw [List.find?_cons_of_neg hb'] at h'
        rw [if_neg hb, if_neg hb', ih h h']

/-- The first matches of lists that are related element by element are related. -/
theorem rel_find?_of_forall₂ {α : Type} {R : α → α → Prop} {test : α → Bool} {l l' : List α}
    (h : List.Forall₂ R l l') (htest : ∀ a b, R a b → test b = test a) :
    Option.Rel R (l.find? test) (l'.find? test) := by
  induction h with
  | nil => exact .none
  | @cons a b _ _ hab _ ih =>
    by_cases ha : test a
    · rw [List.find?_cons_of_pos ha, List.find?_cons_of_pos ((htest a b hab).trans ha)]
      exact .some hab
    · rw [List.find?_cons_of_neg ha, List.find?_cons_of_neg (by rwa [htest a b hab])]
      exact ih

theorem eq_none_of_rel {α β : Type} {R : α → β → Prop} {b? : Option β}
    (h : Option.Rel R none b?) : b? = none := by
  cases h
  rfl

namespace Environment

variable {e e' : Environment} {st : Storage} {x : String} {v : Variable} {lo hi : Nat}

/-! ## What a name refers to -/

/-- A name refers to the first local variable of that name, or else to the first such field. -/
theorem resolve?_eq_some : e.resolve? x = some (st, v) ↔
    (e.stored st).find? (·.name == x) = some v
      ∧ (st = .object → (e.stored .frame).find? (·.name == x) = none) := by
  have hlocals : e.locals.findSome? (·.find? x) = (e.stored .frame).find? (·.name == x) :=
    List.find?_flatMap.symm
  have hfields : e.fields.bind (·.find? x) = (e.stored .object).find? (·.name == x) := by
    rw [stored]
    cases e.fields <;> rfl
  rw [resolve?, hlocals, hfields]
  cases hframe : (e.stored .frame).find? (·.name == x) with
  | some w =>
    cases st with
    | frame => simp [hframe]
    | object => simp
  | none =>
    cases st with
    | frame => simp [hframe]
    | object => simp

/-- Changing the variable that a name refers to. -/
theorem stored_update (hx : e.resolve? x = some (st, v)) (f : Variable → Variable)
    (st' : Storage) : (e.update x f).stored st'
      = if st = st' then updateFirst (·.name == x) f (e.stored st') else e.stored st' := by
  obtain ⟨hfind, hframe⟩ := resolve?_eq_some.mp hx
  have hany : e.locals.any (·.contains x) = (e.stored .frame).any (·.name == x) :=
    List.any_flatMap.symm
  rw [update, hany]
  cases st with
  | frame =>
    rw [if_pos (List.any_eq_true.mpr ⟨v, List.mem_of_find?_eq_some hfind, List.find?_some hfind⟩)]
    cases st' with
    | frame =>
      rw [if_pos rfl, stored, locals_withLocals (updateFirst_ne_nil e.locals_ne_nil)]
      exact flatMap_updateFirst _ _ _
    | object => rw [if_neg Storage.noConfusion, stored, fields_withLocals, stored]
  | object =>
    rw [if_neg (by simpa using List.find?_eq_none.mp (hframe rfl))]
    cases st' with
    | frame => rfl
    | object =>
      rw [if_pos rfl, stored, stored]
      cases e.fields <;> rfl

/-- **Changing the variable that a name refers to** changes the variable in its slot and no
other. -/
theorem Apart.occupant?_update {f : Variable → Variable} (h : e.Apart)
    (hx : e.resolve? x = some (st, v)) (hf : ∀ w, w.slot = v.slot → (f w).slot = v.slot)
    (slot : Slot) : (e.update x f).occupant? slot
      = if ⟨st, v.slot⟩ = slot then (e.occupant? slot).map f else e.occupant? slot := by
  refine occupant?_of_updateFirst hf (fun st' ↦ ?_) slot
  rw [stored_update hx]
  split
  · next heq =>
    subst heq
    obtain ⟨hfind, -⟩ := resolve?_eq_some.mp hx
    exact updateFirst_eq_of_find? hfind
      (h.occupant?_self (List.mem_of_find?_eq_some hfind))
  · rfl

/-! ## What a name comes to refer to -/

/-- Variables that evolve keep their names. -/
theorem rel_find?_name {l l' : List Variable} (h : List.Forall₂ Variable.Evolves l l')
    (x : String) : Option.Rel Variable.Evolves (l.find? (·.name == x)) (l'.find? (·.name == x)) :=
  rel_find?_of_forall₂ h fun _ _ hev ↦ by rw [hev.name]

theorem find?_eq_none_of_not_contains {s : Scope} (h : ¬ s.contains x) :
    s.declared.find? (·.name == x) = none := by
  rw [← Option.not_isSome_iff_eq_none, Option.isSome_iff_exists]
  exact mt contains_iff_find?.mpr h

/-- The first variables of a name are the same as before unless the innermost scope has declared the
name since. -/
theorem Extends.rel_find?_stored (h : e.Extends e')
    (hcurrent : e'.current.contains x → e.current.contains x) (st : Storage) :
    Option.Rel Variable.Evolves ((e.stored st).find? (·.name == x))
      ((e'.stored st).find? (·.name == x)) := by
  cases st with
  | frame =>
    rw [stored, locals, List.flatMap_cons, List.find?_append, stored, locals, List.flatMap_cons,
      List.find?_append]
    by_cases hx : e.current.contains x
    · obtain ⟨old, new, he, hold, -⟩ := h.current
      have hrel := rel_find?_name hold x
      obtain ⟨w, hw⟩ := contains_iff_find?.mp hx
      rw [show e.current.declared.find? (·.name == x) = some w from hw] at hrel ⊢
      obtain ⟨w', hw', hev⟩ := exists_of_rel_left hrel
      rw [he, List.find?_append, hw', Option.some_or, Option.some_or, Option.some_or]
      exact .some hev
    · rw [find?_eq_none_of_not_contains hx, find?_eq_none_of_not_contains (mt hcurrent hx),
        Option.none_or, Option.none_or]
      exact rel_find?_name (List.rel_flatMap h.outer fun _ _ hs ↦ hs) x
  | object =>
    have hfields := h.fields
    rw [stored, stored]
    generalize e.fields = fields at hfields
    generalize e'.fields = fields' at hfields
    cases hfields with
    | none => exact .none
    | some hs => exact rel_find?_name hs x

/-- **A name refers to the same variable as before** unless the innermost scope has declared it
since. -/
theorem Extends.exists_resolve? (h : e.Extends e') (hx : e.resolve? x = some (st, v))
    (hcurrent : e'.current.contains x → e.current.contains x) :
    ∃ v', e'.resolve? x = some (st, v') ∧ v.Evolves v' := by
  obtain ⟨hfind, hframe⟩ := resolve?_eq_some.mp hx
  have hrel := h.rel_find?_stored hcurrent st
  rw [hfind] at hrel
  obtain ⟨v', hv', hev⟩ := exists_of_rel_left hrel
  refine ⟨v', resolve?_eq_some.mpr ⟨hv', fun hst ↦ ?_⟩, hev⟩
  have hrel := h.rel_find?_stored hcurrent .frame
  rw [hframe hst] at hrel
  exact eq_none_of_rel hrel

/-- A name that refers to a variable still refers to one. -/
theorem Extends.isSome_resolve? (h : e.Extends e') (hx : (e.resolve? x).isSome) :
    (e'.resolve? x).isSome := by
  obtain ⟨⟨st, v⟩, hx⟩ := Option.isSome_iff_exists.mp hx
  rw [Option.isSome_iff_exists]
  by_cases hcurrent : e'.current.contains x
  · obtain ⟨v', hv'⟩ := contains_iff_find?.mp hcurrent
    refine ⟨(.frame, v'), resolve?_of_find?_locals (s := e'.current) ?_ hv'⟩
    exact List.find?_cons_of_pos hcurrent
  · obtain ⟨v', hv', -⟩ := h.exists_resolve? hx fun hc ↦ absurd hc hcurrent
    exact ⟨_, hv'⟩

/-- A name that the innermost scope has declared since refers to a new variable. -/
theorem Grows.exists_resolve?_new (h : e.Grows lo hi e') (hnew : e'.current.contains x)
    (hold : ¬ e.current.contains x) : ∃ v', e'.resolve? x = some (.frame, v') ∧ lo ≤ v'.slot := by
  obtain ⟨old, new, he, hev, hslots, -⟩ := h.current
  obtain ⟨v', hv'⟩ := contains_iff_find?.mp hnew
  have hnone : old.find? (·.name == x) = none := by
    have hrel := rel_find?_name hev x
    rw [find?_eq_none_of_not_contains hold] at hrel
    exact eq_none_of_rel hrel
  have hfind : new.find? (·.name == x) = some v' := by
    rwa [Scope.find?, he, List.find?_append, hnone, Option.none_or] at hv'
  refine ⟨v', resolve?_eq_some.mpr ⟨?_, fun hst ↦ Storage.noConfusion hst⟩,
    (hslots v' (List.mem_of_find?_eq_some hfind)).1⟩
  rw [stored, locals, List.flatMap_cons, List.find?_append,
    show e'.current.declared.find? (·.name == x) = some v' from hv', Option.some_or]

end Environment

end Pictograph
