import Pictograph.Proofs.Catalogue.ClosestAncestors

/-!
# The order of elements and the least common type

The element type of a list is meant to be the least upper bound of the types in it, which does not
depend on their order. The common type is put together from left to right, two types at a time. Two
types have in common the wider of them, or an ancestor, or an optional mark, and everything else
only has in common that it is something. A protocol is never found this way, nor is a callable. So
the least upper bound can be missed: two classes that conform to a protocol have an ancestor in
common, which need not conform to it, and with the protocol this ancestor has nothing in common any
more; but each of the classes fits the protocol. Whether it is missed depends on the order.

The common type is as it is meant to be where that of the types so far is always the least, at least
among the types that can come up. Any two least types fit each other. That is so for types each two
of which are comparable, for types that nothing but `anything` has in common, for types among which
there is no class and no widest, and for classes, as long as the common type can tell which optional
marks and which generic arguments there were.

## Main definitions

* `Catalogue.Least`: the least of the types of some sort that a list of types fits.
* `Catalogue.Orderless`: lists for which the least common type is found in any order.

## Main results

* `Catalogue.join_fits`: the common type of comparable types is the least.
* `Catalogue.Reachable.joined_perm`: the order of the lists does not matter.
* `Catalogue.joined_beyond_least`: the least common type of other lists can be missed.
* `Catalogue.order_matters`: so their order can matter, though it should not.
-/

namespace Pictograph

namespace Catalogue

variable {cat : Catalogue} {a b t u v : Ty} {ts us : List Ty}

/-! ## Two types -/

/-- What nothingness and some type fit, this type fits with an optional mark, too. -/
theorem optional_fits (ha : a.kind = .nothingness) (hau : cat.fits a u) (htu : cat.fits t u) :
    cat.fits t.optional u := by
  rw [fits_iff] at *
  obtain hu | ⟨ht, hu⟩ | ⟨ht, -, hkind⟩ := htu
  · exact .anything hu
  · exact .nothingness ht hu
  · obtain hu | ⟨-, hu⟩ | ⟨ha', -, -⟩ := hau
    · exact .anything hu
    · have hoptional := hu.resolve_left (hkind.ne_nothingness ht)
      exact .byKind ht (fun _ ↦ hoptional) (hkind.congr rfl rfl rfl rfl)
    · exact absurd ha ha'

/-- The common type of two types is the least, if one of them fits the other or is nothingness. -/
theorem join_fits (hab : cat.fits a b ∨ cat.fits b a ∨ a.kind = .nothingness
    ∨ b.kind = .nothingness) (hau : cat.fits a u) (hbu : cat.fits b u) :
    cat.fits (cat.join a b) u := by
  have hjoin := Joining.of_join cat a b
  generalize cat.join a b = w at hjoin ⊢
  obtain - | - | ha | hb | ⟨hab', hba', ha, hb⟩ | ⟨hab', hba', ha, hb, -⟩ := hjoin
  · exact hau
  · exact hbu
  · exact optional_fits ha hau hbu
  · exact optional_fits hb hbu hau
  · simp [hab', hba', ha, hb] at hab
  · simp [hab', hba', ha, hb] at hab

/-! ## Least types -/

/-- The least of the types of some sort that all types of a list fit. -/
structure Least (cat : Catalogue) (sort : Ty → Prop) (ts : List Ty) (u : Ty) : Prop where
  complete : cat.Complete u
  ofSort : sort u
  bound : ∀ t ∈ ts, cat.fits t u
  least : ∀ v, sort v → (∀ t ∈ ts, cat.fits t v) → cat.fits u v

namespace Least

variable {sort : Ty → Prop}

theorem singleton (ht : cat.Complete t) (hsort : sort t) : cat.Least sort [t] t where
  complete := ht
  ofSort := hsort
  bound := by
    simp only [List.mem_singleton, forall_eq]
    exact ht.fits_self
  least v _ hv := hv t List.mem_cons_self

/-- The least type grows with the list. -/
theorem concat (h : cat.Reachable) (hu : cat.Least sort ts u) (ht : cat.Complete t)
    (hsort : sort (cat.join u t))
    (hleast : ∀ v, sort v → cat.fits u v → cat.fits t v → cat.fits (cat.join u t) v) :
    cat.Least sort (ts ++ [t]) (cat.join u t) where
  complete := (join_bounds hu.complete ht).complete
  ofSort := hsort
  bound := by
    intro t' ht'
    obtain ⟨-, hleft, hright⟩ := join_bounds hu.complete ht
    rcases List.mem_append.mp ht' with ht' | ht'
    · exact fits_trans h u (hu.bound t' ht') hleft
    · rw [List.mem_singleton] at ht'
      exact ht' ▸ hright
  least := by
    intro v hv hbound
    rw [List.forall_mem_append, List.forall_mem_singleton] at hbound
    exact hleast v hv (hu.least v hv hbound.1) hbound.2

/-- The least type of some types fits that of more types. -/
theorem fits_of_subset (hu : cat.Least sort ts u) (hv : cat.Least sort us v) (hsub : ts ⊆ us) :
    cat.fits u v :=
  hu.least v hv.ofSort fun t ht ↦ hv.bound t (hsub ht)

end Least

/-- What holds of one type, and is kept when one more type is joined, holds of what a list is joined
to. -/
theorem exists_joined_of_step {I : List Ty → Ty → Prop} (hone : ∀ t ∈ ts, I [t] t)
    (hstep : ∀ us u t, t ∈ ts → I us u → I (us ++ [t]) (cat.join u t)) (hne : us ≠ [])
    (hsub : us ⊆ ts) : ∃ u, cat.joined us = some u ∧ I us u := by
  induction us using List.reverseRecOn with
  | nil => exact absurd rfl hne
  | append_singleton us t ih =>
    have ht : t ∈ ts := hsub (List.mem_append_right us List.mem_cons_self)
    rw [joined_append_singleton]
    by_cases hus : us = []
    · subst hus
      exact ⟨t, rfl, hone t ht⟩
    · obtain ⟨u, hu, hI⟩ := ih hus fun x hx ↦ hsub (List.mem_append_left [t] hx)
      rw [hu]
      exact ⟨_, rfl, hstep us u t ht hI⟩

/-! ## Lists with a least common type -/

/-- Classes, all instances and nothingness, of which all that counts survives in whatever order they
are joined. -/
structure Mergeable (cat : Catalogue) (ts : List Ty) : Prop where
  kinds : ∀ t ∈ ts, t.kind = .nothingness ∨ t.kind = .anyObject ∨ ∃ id, t.kind = .object id
  /-- Different classes do not have the same generic arguments, unless they have none. -/
  arguments : ∀ t ∈ ts, ∀ u ∈ ts, ∀ a b, t.kind = .object a → u.kind = .object b →
    t.arguments = u.arguments → t.arguments = [] ∨ a = b
  /-- If all instances come without the optional mark, then so do the classes, and nothingness does
  not come. -/
  instances : ∀ t ∈ ts, t.kind = .anyObject → t.isOptional = false → ∀ u ∈ ts,
    u.kind ≠ .nothingness ∧ ∀ a, u.kind = .object a → u.isOptional = false
  /-- If there is a class with the optional mark, then any two classes without it have an ancestor
  in common. -/
  ancestors : ∀ t ∈ ts, ∀ a, t.kind = .object a → t.isOptional = true →
    ∀ u ∈ ts, ∀ v ∈ ts, ∀ b c, u.kind = .object b → v.kind = .object c →
      u.isOptional = false → v.isOptional = false → ∃ d, cat.descends b d ∧ cat.descends c d

/-- The lists of types for which the fold keeps to the least common type, in any order. -/
inductive Orderless (cat : Catalogue) (ts : List Ty) : Prop
  /-- Of any two types one fits the other, also with an optional mark if nothingness is among
  them. -/
  | comparable (h : ∀ t ∈ ts, ∀ u ∈ ts, t.kind ≠ .nothingness → u.kind ≠ .nothingness →
      (cat.fits t u ∨ cat.fits u t) ∧ ((∃ n ∈ ts, n.kind = .nothingness) →
        cat.fits t.optional u ∨ cat.fits u t.optional))
  /-- There is no class among them, and no type that all of them fit, not even with an optional
  mark. -/
  | unbounded (hobject : ∀ t ∈ ts, ∀ id, t.kind ≠ .object id)
      (h : ∀ t ∈ ts, ∃ u ∈ ts, cat.fits u t.optional = false)
  /-- Two of them only have in common that they are something. -/
  | apart {t u : Ty} (ht : t ∈ ts) (hu : u ∈ ts)
      (h : ∀ v, cat.fits t v → cat.fits u v → v.kind = .anything)
  /-- They are classes, all instances and nothingness, and can be merged. -/
  | mergeable (h : cat.Mergeable ts)

/-! ### Without new classes -/

/-- What a list is joined to if no two classes meet: a type of the list, one with an optional mark
if nothingness is among them, or the type of everything. -/
inductive Stems (ts : List Ty) : Ty → Prop
  | member {t : Ty} (ht : t ∈ ts) : Stems ts t
  | optional {t : Ty} (ht : t ∈ ts) (hn : ∃ n ∈ ts, n.kind = .nothingness) : Stems ts t.optional
  | anything {t : Ty} (ht : t.kind = .anything) : Stems ts t

theorem Stems.join (hu : Stems ts u) (ht : t ∈ ts) (hobjects : ∀ a b, u.kind = .object a →
    t.kind = .object b → cat.fits u t ∨ cat.fits t u) : Stems ts (cat.join u t) := by
  have hjoin := Joining.of_join cat u t
  generalize cat.join u t = w at hjoin ⊢
  obtain - | - | hnothing | hnothing | ⟨hut, htu, hu', ht'⟩ | - := hjoin
  · exact hu
  · exact .member ht
  · refine .optional ht ?_
    obtain hn | ⟨hn, -⟩ | hany := hu
    · exact ⟨u, hn, hnothing⟩
    · exact ⟨_, hn, hnothing⟩
    · exact absurd (hnothing.symm.trans hany) nofun
  · cases hu with
    | member hu => exact .optional hu ⟨t, ht, hnothing⟩
    | @optional t' hu hn =>
      have hstems : Stems ts t'.optional := .optional hu hn
      exact hstems
    | anything hany => exact .anything hany
  · simp [hut, htu] at hobjects
    exact absurd ht' (hobjects _ _ hu')
  · exact .anything rfl

/-- Comparable types are joined to their widest, made optional if nothingness is among them. -/
theorem Reachable.least_of_comparable (h : cat.Reachable) (hts : ∀ t ∈ ts, cat.Complete t)
    (hcomparable : ∀ t ∈ ts, ∀ u ∈ ts, t.kind ≠ .nothingness → u.kind ≠ .nothingness →
      (cat.fits t u ∨ cat.fits u t) ∧ ((∃ n ∈ ts, n.kind = .nothingness) →
        cat.fits t.optional u ∨ cat.fits u t.optional))
    (hne : us ≠ []) (hsub : us ⊆ ts) :
    ∃ u, cat.joined us = some u ∧ cat.Least (fun _ ↦ True) us u := by
  have hstep (us : List Ty) (u t : Ty) (ht : t ∈ ts)
      (hI : cat.Least (fun _ ↦ True) us u ∧ Stems ts u) :
      cat.Least (fun _ ↦ True) (us ++ [t]) (cat.join u t) ∧ Stems ts (cat.join u t) := by
    have hfits : cat.fits u t ∨ cat.fits t u ∨ u.kind = .nothingness ∨ t.kind = .nothingness := by
      by_cases hnothing : u.kind = .nothingness ∨ t.kind = .nothingness
      · exact .inr (.inr hnothing)
      · rw [not_or] at hnothing
        obtain hu | ⟨hu, hn⟩ | hany := hI.2
        · exact (hcomparable u hu t ht hnothing.1 hnothing.2).1.imp_right .inl
        · exact ((hcomparable _ hu t ht hnothing.1 hnothing.2).2 hn).imp_right .inl
        · exact .inr (.inl (fits_iff.mpr (.anything hany)))
    refine ⟨hI.1.concat h (hts t ht) trivial fun v _ ↦ join_fits hfits, ?_⟩
    refine hI.2.join ht fun a b ha hb ↦ ?_
    simpa [ha, hb] using hfits
  have hone (t : Ty) (ht : t ∈ ts) : cat.Least (fun _ ↦ True) [t] t ∧ Stems ts t :=
    ⟨.singleton (hts t ht) trivial, .member ht⟩
  obtain ⟨u, hu, hleast, -⟩ := exists_joined_of_step hone hstep hne hsub
  exact ⟨u, hu, hleast⟩

/-- Types without a class and without a widest type have nothing in common. -/
theorem kind_of_unbounded (hobject : ∀ t ∈ ts, ∀ id, t.kind ≠ .object id)
    (hunbounded : ∀ t ∈ ts, ∃ u ∈ ts, cat.fits u t.optional = false) (hperm : ts.Perm us)
    (hu : cat.joined us = some u) (hbound : ∀ t ∈ us, cat.fits t u) : u.kind = .anything := by
  have hne : us ≠ [] := by
    rintro rfl
    exact absurd hu nofun
  have hstep (_ : List Ty) (v t : Ty) (ht : t ∈ ts) (hv : Stems ts v) :
      Stems ts (cat.join v t) :=
    hv.join ht fun _ b _ hb ↦ absurd hb (hobject t ht b)
  obtain ⟨v, hv, hstems⟩ := exists_joined_of_step (I := fun _ ↦ Stems ts)
    (fun _ ht ↦ .member ht) hstep hne hperm.symm.subset
  rw [hu, Option.some.injEq] at hv
  subst hv
  obtain ht | ⟨ht, -⟩ | hany := hstems
  · obtain ⟨w, hw, hnot⟩ := hunbounded u ht
    exact absurd (fits_optional (hbound w (hperm.mem_iff.mp hw))) (by simp [hnot])
  · obtain ⟨w, hw, hnot⟩ := hunbounded _ ht
    exact absurd (hbound w (hperm.mem_iff.mp hw)) (by simp [hnot])
  · exact hany

/-! ### Classes -/

/-- The types that classes, all instances and nothingness can be joined to. -/
def Merges (ts : List Ty) (u : Ty) : Prop :=
  u.kind = .nothingness ∨ u.kind = .anyObject ∨ ∃ id, u.kind = .object id
    ∧ (u.arguments = [] ∨ ∃ t ∈ ts, t.kind = .object id ∧ t.arguments = u.arguments)

/-- The optional mark does not count. -/
theorem Merges.optional (h : Merges ts u) : Merges ts u.optional := h

/-- What is known about the type that some of the types are joined to, besides that it is the
least. -/
structure Merged (cat : Catalogue) (ts us : List Ty) (u : Ty) : Prop where
  least : cat.Least (Merges ts) us u
  nothing : u.kind = .nothingness → ∃ t ∈ ts, t.kind = .nothingness
  /-- A class is joined from a class. -/
  object : ∀ id, u.kind = .object id → ∃ t ∈ us, t ∈ ts ∧ ∃ a, t.kind = .object a
  /-- If it is all instances without the optional mark, then there is no class with it. -/
  instances : u.kind = .anyObject → u.isOptional = false →
    ∀ t ∈ ts, ∀ a, t.kind = .object a → t.isOptional = false
  /-- If it is a class with the optional mark, then all instances have it, too. -/
  marks : ∀ id, u.kind = .object id → u.isOptional = true →
    ∀ t ∈ ts, t.kind = .anyObject → t.isOptional = true

namespace Mergeable

theorem merges (hm : cat.Mergeable ts) (ht : t ∈ ts) : Merges ts t := by
  obtain hkind | hkind | ⟨id, hkind⟩ := hm.kinds t ht
  · exact .inl hkind
  · exact .inr (.inl hkind)
  · exact .inr (.inr ⟨id, hkind, .inr ⟨t, ht, hkind, rfl⟩⟩)

/-- A class with the optional mark does not stand beside all instances without it. -/
theorem isOptional_of_object (hm : cat.Mergeable ts) (ht : t ∈ ts) {id : TypeId}
    (hkind : t.kind = .object id) (hoptional : t.isOptional = true) (hu : u ∈ ts)
    (hukind : u.kind = .anyObject) : u.isOptional = true := by
  by_contra hnot
  rw [Bool.not_eq_true] at hnot
  have hplain := (hm.instances u hu hukind hnot t ht).2 id hkind
  rw [hoptional] at hplain
  exact absurd hplain (by decide)

theorem merged_member (hm : cat.Mergeable ts) (ht : t ∈ ts) (hus : t ∈ us)
    (hleast : cat.Least (Merges ts) us t) : cat.Merged ts us t where
  least := hleast
  nothing hkind := ⟨t, ht, hkind⟩
  object id hkind := ⟨t, hus, ht, id, hkind⟩
  instances hkind hplain u hu := (hm.instances t ht hkind hplain u hu).2
  marks _ hkind hoptional _ := hm.isOptional_of_object ht hkind hoptional

/-- With nothingness among them, the types are joined to an optional type. -/
theorem merged_optional (hm : cat.Mergeable ts) (hn : ∃ n ∈ ts, n.kind = .nothingness)
    (hleast : cat.Least (Merges ts) us t.optional)
    (hobject : ∀ id, t.kind = .object id → ∃ u ∈ us, u ∈ ts ∧ ∃ a, u.kind = .object a) :
    cat.Merged ts us t.optional where
  least := hleast
  nothing _ := hn
  object := hobject
  instances _ hplain := absurd hplain nofun
  marks _ _ _ u hu hukind := by
    obtain ⟨n, hn, hnkind⟩ := hn
    by_contra hnot
    rw [Bool.not_eq_true] at hnot
    exact (hm.instances u hu hukind hnot n hn).1 hnkind

end Mergeable

namespace Merged

variable {left right : TypeId}

/-- Unless two classes meet, one type fits the other or is nothingness. -/
theorem comparable (hm : cat.Mergeable ts) (hu : cat.Merged ts us u) (ht : t ∈ ts)
    (hobjects : ∀ a b, u.kind = .object a → t.kind ≠ .object b) :
    cat.fits u t ∨ cat.fits t u ∨ u.kind = .nothingness ∨ t.kind = .nothingness := by
  obtain hukind | hukind | ⟨a, hukind, -⟩ := hu.least.ofSort
  · exact .inr (.inr (.inl hukind))
  · obtain htkind | htkind | ⟨b, htkind⟩ := hm.kinds t ht
    · exact .inr (.inr (.inr htkind))
    · by_cases hoptional : u.isOptional = true
      · exact .inr (.inl (anyObject_fits htkind hukind fun _ ↦ hoptional))
      · exact .inl (anyObject_fits hukind htkind fun hnot ↦ absurd hnot hoptional)
    · refine .inr (.inl ((fits_of_object_iff htkind).mpr (.inr ⟨fun hoptional ↦ ?_, .inl hukind⟩)))
      by_contra hnot
      rw [Bool.not_eq_true] at hnot
      rw [hu.instances hukind hnot t ht b htkind] at hoptional
      exact absurd hoptional (by decide)
  · obtain htkind | htkind | ⟨b, htkind⟩ := hm.kinds t ht
    · exact .inr (.inr (.inr htkind))
    · refine .inl ((fits_of_object_iff hukind).mpr (.inr ⟨fun hoptional ↦ ?_, .inl htkind⟩))
      exact hu.marks a hukind hoptional t ht htkind
    · exact absurd htkind (hobjects a b hukind)

/-- Generic arguments come from a class of the list. -/
theorem exists_of_arguments (hu : cat.Merged ts us u) (hukind : u.kind = .object left)
    (hsome : u.arguments ≠ []) :
    ∃ t ∈ ts, t.kind = .object left ∧ t.arguments = u.arguments := by
  have hsort := hu.least.ofSort
  simp [Merges, hukind, hsome] at hsort
  exact hsort

/-- The common type of what was joined and one more type is the least again. -/
theorem join_fits (h : cat.Reachable) (hm : cat.Mergeable ts) (hu : cat.Merged ts us u)
    (ht : t ∈ ts) (hv : Merges ts v) (huv : cat.fits u v) (htv : cat.fits t v) :
    cat.fits (cat.join u t) v := by
  by_cases hobjects : ∃ a b, u.kind = .object a ∧ t.kind = .object b
  · obtain ⟨left, right, hukind, htkind⟩ := hobjects
    refine h.join_objects_fits hukind htkind (fun p hp ↦ ?_) (fun id hid ↦ ?_) huv htv
    · simp [Merges, hp] at hv
    · by_cases hnone : v.arguments = []
      · exact .inl hnone
      · -- both types have the generic arguments of the type that they fit
        have harguments {w : Ty} {a : TypeId} (hw : w.kind = .object a) (hwv : cat.fits w v) :
            w.arguments = v.arguments := by
          have hfits := (fits_of_object_iff hw).mp hwv
          simp [hid, hnone] at hfits
          exact hfits.2.2
        have hsame : u.arguments = t.arguments :=
          (harguments hukind huv).trans (harguments htkind htv).symm
        have hsome : u.arguments ≠ [] := by
          rwa [harguments hukind huv]
        obtain ⟨m, hm', hmkind, hmarguments⟩ := hu.exists_of_arguments hukind hsome
        rcases hm.arguments m hm' t ht left right hmkind htkind (hmarguments.trans hsame) with h | h
        · exact absurd (hmarguments.symm.trans h) hsome
        · exact .inr h
  · refine Catalogue.join_fits (hu.comparable hm ht fun a b ha hb ↦ ?_) huv htv
    exact hobjects ⟨a, b, ha, hb⟩

/-- A class that is joined is an ancestor of one of the types, and has the optional mark if that has
it. -/
theorem exists_descends (hu : cat.Merged ts us u) (hukind : u.kind = .object left) :
    ∃ t ∈ ts, ∃ a, t.kind = .object a ∧ (t.isOptional → u.isOptional) ∧ cat.descends a left := by
  obtain ⟨t, hus, ht, a, htkind⟩ := hu.object left hukind
  have hfits := (fits_of_object_iff htkind).mp (hu.least.bound t hus)
  simp [hukind] at hfits
  exact ⟨t, ht, a, htkind, hfits.1, hfits.2.1⟩

/-- Two classes that meet only in all instances have no optional mark only if no class has it. -/
theorem plain_of_apart (h : cat.Reachable) (hm : cat.Mergeable ts) (hu : cat.Merged ts us u)
    (ht : t ∈ ts) (hukind : u.kind = .object left) (htkind : t.kind = .object right)
    (hc : cat.commonAncestor? left right = none) (hplain : (u.isOptional || t.isOptional) = false) :
    ∀ m ∈ ts, ∀ a, m.kind = .object a → m.isOptional = false := by
  intro m hm' a hmkind
  by_contra hoptional
  rw [Bool.not_eq_false] at hoptional
  rw [Bool.or_eq_false_iff] at hplain
  obtain ⟨w, hw, b, hwkind, hmark, hleft⟩ := hu.exists_descends hukind
  have hwplain : w.isOptional = false := by
    by_contra hnot
    simp [hmark (by simpa using hnot)] at hplain
  obtain ⟨d, hbd, hrightd⟩ :=
    hm.ancestors m hm' a hmkind hoptional w hw t ht b right hwkind htkind hwplain hplain.2
  have hcommon : ∃ e, cat.descends left e ∧ cat.descends right e := by
    rcases h.descends_or_descends hleft hbd with hld | hdl
    · exact ⟨d, hld, hrightd⟩
    · exact ⟨left, descends_refl (class?_isSome_of_descends hleft), h.descends_trans hrightd hdl⟩
  obtain ⟨e, hl, hr⟩ := hcommon
  obtain ⟨c, hsome, -⟩ := h.exists_commonAncestor? hl hr
  exact absurd (hsome.symm.trans hc) nofun

/-- **One more type.** What is known about the type that is joined is still known after the next
type. -/
theorem concat (h : cat.Reachable) (hm : cat.Mergeable ts) (hts : ∀ t ∈ ts, cat.Complete t)
    (hu : cat.Merged ts us u) (ht : t ∈ ts) : cat.Merged ts (us ++ [t]) (cat.join u t) := by
  have hleast (hsort : Merges ts (cat.join u t)) :
      cat.Least (Merges ts) (us ++ [t]) (cat.join u t) :=
    hu.least.concat h (hts t ht) hsort fun v hv huv htv ↦ hu.join_fits h hm ht hv huv htv
  have hlast : t ∈ us ++ [t] := List.mem_append_right us List.mem_cons_self
  have hobject (id : TypeId) (hid : u.kind = .object id) :
      ∃ m ∈ us ++ [t], m ∈ ts ∧ ∃ a, m.kind = .object a := by
    obtain ⟨m, hus, hm'⟩ := hu.object id hid
    exact ⟨m, List.mem_append_left [t] hus, hm'⟩
  have hjoin := Joining.of_join cat u t
  generalize cat.join u t = w at hjoin hleast ⊢
  obtain - | - | hnothing | hnothing | @⟨left, right, -, -, hukind, htkind⟩ |
    ⟨hut, htu, hukind, htkind, hobjects⟩ := hjoin
  · exact ⟨hleast hu.least.ofSort, hu.nothing, hobject, hu.instances, hu.marks⟩
  · exact hm.merged_member ht hlast (hleast (hm.merges ht))
  · exact hm.merged_optional (hu.nothing hnothing) (hleast (hm.merges ht).optional)
      fun id hid ↦ ⟨t, hlast, ht, id, hid⟩
  · exact hm.merged_optional ⟨t, ht, hnothing⟩ (hleast hu.least.ofSort.optional) hobject
  · cases hc : cat.commonAncestor? left right with
    | some c =>
      rw [joinObjects_of_some u t hc] at hleast ⊢
      refine ⟨hleast (.inr (.inr ⟨c.id, rfl, ?_⟩)), nofun, fun _ _ ↦ ⟨t, hlast, ht, right, htkind⟩,
        nofun, fun _ _ hmark ↦ ?_⟩
      · by_cases hsame : c.id = left ∧ u.arguments = t.arguments
        · rw [if_pos hsame]
          have hsort := hu.least.ofSort
          simp [Merges, hukind] at hsort
          exact hsame.1 ▸ hsort
        · exact .inl (if_neg hsame)
      · rcases Bool.or_eq_true_iff.mp hmark with hmark | hmark
        · exact hu.marks left hukind hmark
        · exact fun m ↦ hm.isOptional_of_object ht htkind hmark
    | none =>
      rw [joinObjects_of_none u t hc] at hleast ⊢
      exact ⟨hleast (.inr (.inl rfl)), nofun, nofun,
        fun _ hplain ↦ hu.plain_of_apart h hm ht hukind htkind hc hplain, nofun⟩
  · have hfits := hu.comparable hm ht hobjects
    simp [hut, htu, hukind, htkind] at hfits

end Merged

/-- Classes, all instances and nothingness that can be merged are joined to their least common
type. -/
theorem Reachable.least_of_mergeable (h : cat.Reachable) (hts : ∀ t ∈ ts, cat.Complete t)
    (hm : cat.Mergeable ts) (hne : us ≠ []) (hsub : us ⊆ ts) :
    ∃ u, cat.joined us = some u ∧ cat.Least (Merges ts) us u := by
  obtain ⟨u, hu, hmerged⟩ := exists_joined_of_step (I := cat.Merged ts)
    (fun t ht ↦ hm.merged_member ht List.mem_cons_self (.singleton (hts t ht) (hm.merges ht)))
    (fun us u t ht hu ↦ hu.concat h hm hts ht) hne hsub
  exact ⟨u, hu, hmerged.least⟩

/-! ### All lists -/

/-- If only `anything` can be what the types are joined to, it is the least. -/
theorem Reachable.least_of_anything (h : cat.Reachable) (hus : ∀ t ∈ us, cat.Complete t)
    (hne : us ≠ []) (hany : ∀ u, cat.joined us = some u → (∀ t ∈ us, cat.fits t u) →
      u.kind = .anything) :
    ∃ u, cat.joined us = some u ∧ cat.Least (·.kind = .anything) us u := by
  obtain ⟨u, hu, hbound⟩ := h.exists_joined hne hus
  have hkind := hany u hu hbound
  refine ⟨u, hu, ⟨?_, hkind, hbound, fun v hv _ ↦ fits_iff.mpr (.anything hv)⟩⟩
  refine complete_iff.mpr ⟨fun id hid ↦ ?_, fun hcallable ↦ ?_⟩
  · exact absurd (hkind.symm.trans hid) nofun
  · exact absurd (hkind.symm.trans hcallable) nofun

/-- **Where the least common type is found the order does not matter.** If two lists have the same
types of values, and these are such that the fold keeps to the least common type, then what the one
is joined to and what the other is joined to fit each other. -/
theorem Reachable.joined_perm (h : cat.Reachable) (hts : ∀ t ∈ ts, cat.Complete t)
    (horder : cat.Orderless ts) (hperm : ts.Perm us) :
    Option.Rel (fun t u ↦ cat.fits t u ∧ cat.fits u t) (cat.joined ts) (cat.joined us) := by
  by_cases hne : ts = []
  · subst hne
    obtain rfl := hperm.nil_eq
    exact .none
  -- for one sort of types both lists are joined to the least
  have hleast : ∃ sort, ∀ vs, ts.Perm vs → ∃ v, cat.joined vs = some v ∧ cat.Least sort vs v := by
    have hvs {vs : List Ty} (hv : ts.Perm vs) : vs ≠ [] :=
      fun hnil ↦ hne (hnil ▸ hv).eq_nil
    have hcomplete {vs : List Ty} (hv : ts.Perm vs) : ∀ t ∈ vs, cat.Complete t :=
      fun t ht ↦ hts t (hv.mem_iff.mpr ht)
    obtain hcomparable | ⟨hobject, hunbounded⟩ | ⟨ht, hu, hapart⟩ | hm := horder
    · exact ⟨_, fun vs hv ↦ h.least_of_comparable hts hcomparable (hvs hv) hv.symm.subset⟩
    · refine ⟨_, fun vs hv ↦ h.least_of_anything (hcomplete hv) (hvs hv) fun v hjoined hbound ↦ ?_⟩
      exact kind_of_unbounded hobject hunbounded hv hjoined hbound
    · refine ⟨_, fun vs hv ↦ h.least_of_anything (hcomplete hv) (hvs hv) fun v _ hbound ↦ ?_⟩
      exact hapart v (hbound _ (hv.mem_iff.mp ht)) (hbound _ (hv.mem_iff.mp hu))
    · exact ⟨_, fun vs hv ↦ h.least_of_mergeable hts hm (hvs hv) hv.symm.subset⟩
  obtain ⟨sort, hleast⟩ := hleast
  obtain ⟨t, ht, hleft⟩ := hleast ts (.refl ts)
  obtain ⟨u, hu, hright⟩ := hleast us hperm
  rw [ht, hu]
  exact .some ⟨hleft.fits_of_subset hright hperm.subset,
    hright.fits_of_subset hleft hperm.symm.subset⟩

/-- 🐱 made optional, 🐶 and 🐾 can be merged: they all have the ancestor 🐾. -/
theorem mergeable_animals : Sample.animals.Mergeable
    [(Ty.object Sample.tabby.typeId).optional, .object Sample.hound.typeId,
      .object Sample.mammal.typeId] where
  kinds := by simp [Ty.object, Ty.plain, Ty.optional, Ty.withOptional]
  arguments := by simp [Ty.object, Ty.plain, Ty.optional, Ty.withOptional]
  instances := by simp [Ty.object, Ty.plain, Ty.optional, Ty.withOptional]
  ancestors := by
    have hup : ∀ t ∈ [(Ty.object Sample.tabby.typeId).optional, .object Sample.hound.typeId,
        .object Sample.mammal.typeId], ∀ id, t.kind = .object id →
        Sample.animals.descends id Sample.mammal.typeId := by
      rw [List.forall_mem_cons, List.forall_mem_cons, List.forall_mem_singleton]
      refine ⟨?_, ?_, ?_⟩
      · rintro _ ⟨⟩
        decide +kernel
      · rintro _ ⟨⟩
        decide +kernel
      · rintro _ ⟨⟩
        decide +kernel
    intro _ _ _ _ _ t ht u hu a b ha hb _ _
    exact ⟨Sample.mammal.typeId, hup t ht a ha, hup u hu b hb⟩

/-- In whatever order 🐱 made optional, 🐶 and 🐾 come, they are joined to 🐾 made optional. -/
theorem Reachable.joined_perm_animals :
    Sample.animals.Reachable
    ∧ Option.Rel (fun t u ↦ Sample.animals.fits t u ∧ Sample.animals.fits u t)
        (Sample.animals.joined [(Ty.object Sample.tabby.typeId).optional,
          .object Sample.hound.typeId, .object Sample.mammal.typeId])
        (Sample.animals.joined [.object Sample.hound.typeId, .object Sample.mammal.typeId,
          (Ty.object Sample.tabby.typeId).optional]) := by
  refine ⟨Sample.reachable_animals, Sample.reachable_animals.joined_perm ?_
    (.mergeable mergeable_animals) ?_⟩
  · rw [List.forall_mem_cons, List.forall_mem_cons, List.forall_mem_singleton]
    exact ⟨complete_of_object rfl (by decide +kernel), complete_of_object rfl (by decide +kernel),
      complete_of_object rfl (by decide +kernel)⟩
  · decide +kernel

/-- **The least common type can be missed.** 🐱 and 🐶 both conform to 🏠, so 🏠 is the least type
that 🐱, 🐶 and 🏠 itself fit. But in this order they are joined to `anything`: 🐱 and 🐶 to an
ancestor, and the ancestor does not conform to 🏠. -/
theorem joined_beyond_least :
    Sample.animals.Least (fun _ ↦ True) [.object Sample.tabby.typeId, .object Sample.hound.typeId,
        .protocol Sample.pet.typeId] (.protocol Sample.pet.typeId)
    ∧ Sample.animals.joined [.object Sample.tabby.typeId, .object Sample.hound.typeId,
        .protocol Sample.pet.typeId] = some .anything := by
  refine ⟨⟨complete_iff.mpr ⟨nofun, nofun⟩, trivial, ?_, fun v _ hv ↦ ?_⟩, by decide +kernel⟩
  · rw [List.forall_mem_cons, List.forall_mem_cons, List.forall_mem_singleton]
    decide +kernel
  · exact hv _ (by simp)

/-- **The order of such lists matters**, against what a least upper bound is. 🐱 and 🐶 both conform
to 🏠. With 🏠 between them they are joined to 🏠, and with 🏠 behind them to `anything`, which does
not fit 🏠. -/
theorem order_matters :
    Sample.animals.Reachable
    ∧ (∀ t ∈ [.object Sample.tabby.typeId, .protocol Sample.pet.typeId,
        .object Sample.hound.typeId], Sample.animals.Complete t)
    ∧ [.object Sample.tabby.typeId, .protocol Sample.pet.typeId, .object Sample.hound.typeId].Perm
        [.object Sample.tabby.typeId, .object Sample.hound.typeId,
          (.protocol Sample.pet.typeId : Ty)]
    ∧ ¬ Option.Rel (fun t u ↦ Sample.animals.fits t u ∧ Sample.animals.fits u t)
        (Sample.animals.joined [.object Sample.tabby.typeId, .protocol Sample.pet.typeId,
          .object Sample.hound.typeId])
        (Sample.animals.joined [.object Sample.tabby.typeId, .object Sample.hound.typeId,
          .protocol Sample.pet.typeId]) := by
  refine ⟨Sample.reachable_animals, ?_, by decide +kernel, ?_⟩
  · rw [List.forall_mem_cons, List.forall_mem_cons, List.forall_mem_singleton]
    exact ⟨complete_of_object rfl (by decide +kernel), complete_iff.mpr ⟨nofun, nofun⟩,
      complete_of_object rfl (by decide +kernel)⟩
  · have hbetween : Sample.animals.joined [.object Sample.tabby.typeId,
        .protocol Sample.pet.typeId, .object Sample.hound.typeId]
          = some (.protocol Sample.pet.typeId) := by decide +kernel
    rw [hbetween, joined_beyond_least.2, Option.rel_some_some]
    decide +kernel

end Catalogue

end Pictograph
