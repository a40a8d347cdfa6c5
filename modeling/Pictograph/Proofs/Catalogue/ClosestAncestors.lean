import Pictograph.Proofs.Catalogue.CommonTypes

/-!
# Classes meet at their closest common ancestor

Inheritance is a forest, so the ancestors of a class are in line: of any two, one descends from the
other. The common ancestors of two classes are a part of this line, and the search for one, which
goes up from the first class, stops at the lowest. What it stops at does not depend on which class
is the first, because the common ancestors do not.

For the types this means that two classes without generic arguments have a least common type among
the types a class can have in common with another: classes without generic arguments, all instances
and everything. Protocols are left out. Two classes may conform to one protocol when their closest
common ancestor does not.

## Main results

* `Catalogue.Reachable.pairwise_lineage`: a lineage goes up.
* `Catalogue.Reachable.joinObjects_fits`: what two class types fit, their join fits.
* `Catalogue.Reachable.classes_meet`: the common type of two classes is the least.
-/

namespace Pictograph

/-! ## The first of a line -/

/-- What a search finds is related to everything behind it that would have been found, too. -/
theorem List.rel_of_find? {α : Type} {R : α → α → Prop} {test : α → Bool} {l : List α} {a b : α}
    (hl : l.Pairwise R) (ha : l.find? test = some a) (hb : b ∈ l) (htest : test b) :
    a = b ∨ R a b := by
  obtain ⟨-, before, behind, rfl, hbefore⟩ := List.find?_eq_some_iff_append.mp ha
  rcases List.mem_append.mp hb with hb | hb
  · exact absurd htest (by simpa using hbefore b hb)
  · rcases List.mem_cons.mp hb with rfl | hb
    · exact .inl rfl
    · exact .inr ((List.pairwise_cons.mp (List.pairwise_append.mp hl).2.1).1 b hb)

namespace Catalogue

/-- In a list of classes with identities of their own a lineage goes up. -/
theorem pairwise_lineageIn {l : List Class} (hl : (l.map (·.id)).Nodup) (id : TypeId) :
    (lineageIn l id).Pairwise fun c d ↦ ∃ x ∈ lineageIn l c.id, x.id = d.id := by
  induction l generalizing id with
  | nil => exact .nil
  | cons c l ih =>
    rw [List.map_cons, List.nodup_cons] at hl
    have hne {x : Class} (hx : x ∈ l) : c.id ≠ x.id := by
      intro heq
      exact hl.1 (heq ▸ List.mem_map_of_mem hx)
    -- behind its head nothing changes for the list
    have htail (parent : TypeId) : (lineageIn l parent).Pairwise fun x y ↦
        ∃ z ∈ lineageIn (c :: l) x.id, z.id = y.id := by
      refine (ih hl.2 parent).imp_of_mem fun {x y} hx _ hxy ↦ ?_
      rw [lineageIn_cons_of_ne (hne ((lineageIn_sublist l parent).mem hx))]
      exact hxy
    by_cases hc : c.id = id
    · subst hc
      rw [lineageIn_cons_self]
      cases hs : c.superclass? with
      | none => exact List.pairwise_singleton _ _
      | some parent =>
        refine List.pairwise_cons.mpr ⟨fun x hx ↦ ⟨x, ?_, rfl⟩, htail parent⟩
        rw [lineageIn_cons_self, hs]
        exact List.mem_cons_of_mem c hx
    · rw [lineageIn_cons_of_ne hc]
      exact htail id

section

variable {cat : Catalogue} {left right id : TypeId} {c : Class}

/-- **A lineage goes up.** Every class of a lineage descends from all classes behind it. -/
theorem Reachable.pairwise_lineage (h : cat.Reachable) (id : TypeId) :
    (cat.lineage id).Pairwise fun c d ↦ cat.descends c.id d.id := by
  refine (pairwise_lineageIn h.nodup id).imp fun {c d} hcd ↦ ?_
  exact descends_iff.mpr hcd

/-- What has an ancestor is a class. -/
theorem descends_self {a : TypeId} (ha : cat.descends id a) : cat.descends id id := by
  obtain ⟨c, hc, -⟩ := descends_iff.mp ha
  refine descends_refl ?_
  rw [← head?_lineage, List.isSome_head?]
  exact List.ne_nil_of_mem hc

/-- Of two ancestors of a class one descends from the other. -/
theorem Reachable.descends_or_descends {a b : TypeId} (h : cat.Reachable)
    (ha : cat.descends id a) (hb : cat.descends id b) : cat.descends a b ∨ cat.descends b a := by
  obtain ⟨c, hc, rfl⟩ := descends_iff.mp (descends_refl (class?_isSome_of_descends ha))
  obtain ⟨d, hd, rfl⟩ := descends_iff.mp (descends_refl (class?_isSome_of_descends hb))
  rcases List.suffix_or_suffix_of_suffix (h.lineage_suffix ha) (h.lineage_suffix hb) with hs | hs
  · exact .inr (descends_iff.mpr ⟨c, hs.mem hc, rfl⟩)
  · exact .inl (descends_iff.mpr ⟨d, hs.mem hd, rfl⟩)

/-! ## Closest common ancestors -/

/-- The search for a common ancestor goes up from the first class. -/
def commonAncestor? (cat : Catalogue) (left right : TypeId) : Option Class :=
  (cat.lineage left).find? fun c ↦ cat.descends right c.id

/-- What is found is a common ancestor. -/
theorem descends_of_commonAncestor? (hc : cat.commonAncestor? left right = some c) :
    cat.descends left c.id ∧ cat.descends right c.id := by
  constructor
  · exact descends_iff.mpr ⟨c, List.mem_of_find?_eq_some hc, rfl⟩
  · simpa using List.find?_some hc

/-- **What is found is the closest.** If there is a common ancestor, one is found that descends from
it. -/
theorem Reachable.exists_commonAncestor? (h : cat.Reachable) (hl : cat.descends left id)
    (hr : cat.descends right id) :
    ∃ c, cat.commonAncestor? left right = some c ∧ cat.descends c.id id := by
  obtain ⟨d, hd, rfl⟩ := descends_iff.mp hl
  have hsome : (cat.commonAncestor? left right).isSome := List.find?_isSome.mpr ⟨d, hd, hr⟩
  obtain ⟨c, hc⟩ := Option.isSome_iff_exists.mp hsome
  refine ⟨c, hc, ?_⟩
  rcases List.rel_of_find? (h.pairwise_lineage left) hc hd hr with rfl | hcd
  · exact descends_refl (class?_isSome_of_descends hl)
  · exact hcd

/-- Of a class and itself the class is the closest common ancestor. -/
theorem Reachable.id_of_commonAncestor?_self (h : cat.Reachable)
    (hc : cat.commonAncestor? id id = some c) : c.id = id := by
  obtain ⟨hup, -⟩ := descends_of_commonAncestor? hc
  have hself : cat.descends id id := descends_self hup
  obtain ⟨d, hd, hdown⟩ := h.exists_commonAncestor? hself hself
  rw [hc, Option.some.injEq] at hd
  subst hd
  exact h.descends_antisymm hdown hup

end

/-! ## Class types -/

section

variable {cat : Catalogue} {a b u : Ty} {left right : TypeId}

/-- The type of a registered class is a type of values. -/
theorem complete_of_object (ha : a.kind = .object left) (hleft : (cat.class? left).isSome) :
    cat.Complete a := by
  refine complete_iff.mpr ⟨fun id hid ↦ ?_, fun hcallable ↦ absurd (ha.symm.trans hcallable) nofun⟩
  rw [ha, Ty.Kind.object.injEq] at hid
  exact hid ▸ hleft

/-- **What a class type fits.** -/
theorem fits_of_object_iff (ha : a.kind = .object left) :
    cat.fits a u ↔ u.kind = .anything ∨ (a.isOptional → u.isOptional) ∧ (u.kind = .anyObject
      ∨ (∃ id, u.kind = .object id ∧ cat.descends left id
        ∧ (u.arguments = [] ∨ a.arguments = u.arguments))
      ∨ ∃ p, u.kind = .protocol p ∧ cat.conforms left p) := by
  rw [fits_iff]
  constructor
  · rintro (hu | ⟨hnothing, -⟩ | ⟨-, hoptional, hkind⟩)
    · exact .inl hu
    · exact absurd (ha.symm.trans hnothing) nofun
    · refine .inr ⟨hoptional, ?_⟩
      obtain ⟨ha', hu, hdescends, harguments⟩ | ⟨-, hu⟩ | ⟨ha', hu, hconforms⟩ | ⟨ha', -, -⟩ |
        ⟨-, hobject, -⟩ := hkind
      · rw [ha, Ty.Kind.object.injEq] at ha'
        subst ha'
        exact .inr (.inl ⟨_, hu, hdescends, harguments⟩)
      · exact .inl hu
      · rw [ha, Ty.Kind.object.injEq] at ha'
        subst ha'
        exact .inr (.inr ⟨_, hu, hconforms⟩)
      · exact absurd (ha.symm.trans ha') nofun
      · exact absurd ha (hobject left)
  · rintro (hu | ⟨hoptional, hkind⟩)
    · exact .anything hu
    · refine .byKind (by simp [ha]) hoptional ?_
      obtain hu | ⟨id, hu, hdescends, harguments⟩ | ⟨p, hu, hconforms⟩ := hkind
      · exact .isInstance ha hu
      · exact .inherits ha hu hdescends harguments
      · exact .conforms ha hu hconforms

theorem joinObjects_of_some (a b : Ty) {c : Class} (hc : cat.commonAncestor? left right = some c) :
    cat.joinObjects a b left right = ⟨.object c.id, a.isOptional || b.isOptional,
      if c.id = left ∧ a.arguments = b.arguments then a.arguments else []⟩ := by
  rw [commonAncestor?] at hc
  simp only [joinObjects, hc]

theorem joinObjects_of_none (a b : Ty) (hc : cat.commonAncestor? left right = none) :
    cat.joinObjects a b left right = Ty.anyObject.withOptional (a.isOptional || b.isOptional) := by
  rw [commonAncestor?] at hc
  simp only [joinObjects, hc]

/-- The type of all instances fits itself, if the optional mark is there when it has to be. -/
theorem anyObject_fits (ha : a.kind = .anyObject) (hu : u.kind = .anyObject)
    (hoptional : a.isOptional → u.isOptional) : cat.fits a u := by
  refine fits_iff.mpr (.byKind ?_ hoptional (.same (ha.trans hu.symm) ?_ ?_))
  · simp [ha]
  · simp [ha]
  · simp [ha]

/-- **What two class types fit, their join fits**, if it is no protocol, and no class with generic
arguments unless the two types are of one class. -/
theorem Reachable.joinObjects_fits (h : cat.Reachable) (ha : a.kind = .object left)
    (hb : b.kind = .object right) (hprotocol : ∀ p, u.kind ≠ .protocol p)
    (harguments : ∀ id, u.kind = .object id → u.arguments = [] ∨ left = right)
    (hau : cat.fits a u) (hbu : cat.fits b u) : cat.fits (cat.joinObjects a b left right) u := by
  by_cases hany : u.kind = .anything
  · exact fits_iff.mpr (.anything hany)
  obtain ⟨hleft, hau⟩ := ((fits_of_object_iff ha).mp hau).resolve_left hany
  obtain ⟨hright, hbu⟩ := ((fits_of_object_iff hb).mp hbu).resolve_left hany
  have hoptional (hmark : (a.isOptional || b.isOptional) = true) : u.isOptional = true :=
    (Bool.or_eq_true_iff.mp hmark).elim hleft hright
  obtain hu | ⟨id, hu, hdescends, hsame⟩ | ⟨p, hu, -⟩ := hau
  · cases hc : cat.commonAncestor? left right with
    | some c =>
      rw [joinObjects_of_some a b hc]
      exact (fits_of_object_iff rfl).mpr (.inr ⟨hoptional, .inl hu⟩)
    | none =>
      rw [joinObjects_of_none a b hc]
      exact anyObject_fits rfl hu hoptional
  · obtain hu' | ⟨id', hu', hdescends', hsame'⟩ | ⟨p, hu', -⟩ := hbu
    · exact absurd (hu.symm.trans hu') nofun
    · rw [hu, Ty.Kind.object.injEq] at hu'
      subst hu'
      obtain ⟨c, hc, hclose⟩ := h.exists_commonAncestor? hdescends hdescends'
      rw [joinObjects_of_some a b hc]
      refine (fits_of_object_iff rfl).mpr (.inr ⟨hoptional, .inr (.inl ⟨id, hu, hclose, ?_⟩)⟩)
      by_cases hnone : u.arguments = []
      · exact .inl hnone
      · -- the two types are of one class, and it is the closest common ancestor
        have hone : left = right := (harguments id hu).resolve_left hnone
        subst hone
        have heq : a.arguments = b.arguments :=
          (hsame.resolve_left hnone).trans (hsame'.resolve_left hnone).symm
        rw [if_pos ⟨h.id_of_commonAncestor?_self hc, heq⟩]
        exact hsame
    · exact absurd (hu.symm.trans hu') nofun
  · exact absurd hu (hprotocol p)

/-- **The common type of two class types** fits what both of them fit, protocols left out, and
classes with generic arguments if the two types are of different classes. -/
theorem Reachable.join_objects_fits (h : cat.Reachable) (ha : a.kind = .object left)
    (hb : b.kind = .object right) (hprotocol : ∀ p, u.kind ≠ .protocol p)
    (harguments : ∀ id, u.kind = .object id → u.arguments = [] ∨ left = right)
    (hau : cat.fits a u) (hbu : cat.fits b u) : cat.fits (cat.join a b) u := by
  have hjoin := Joining.of_join cat a b
  generalize cat.join a b = w at hjoin ⊢
  obtain - | - | hnothing | hnothing | ⟨-, -, hleft, hright⟩ | ⟨-, -, -, -, hobjects⟩ := hjoin
  · exact hau
  · exact hbu
  · exact absurd (ha.symm.trans hnothing) nofun
  · exact absurd (hb.symm.trans hnothing) nofun
  · rw [ha, Ty.Kind.object.injEq] at hleft
    rw [hb, Ty.Kind.object.injEq] at hright
    subst hleft hright
    exact h.joinObjects_fits ha hb hprotocol harguments hau hbu
  · exact absurd hb (hobjects left right ha)

/-- **Classes meet at their closest common ancestor.** Two class types, optional or not, fit their
common type, and it fits whatever both of them fit among everything, all instances and the classes
without generic arguments, each of them optional or not. -/
theorem Reachable.classes_meet (h : cat.Reachable) (ha : a.kind = .object left)
    (hb : b.kind = .object right) (hleft : (cat.class? left).isSome)
    (hright : (cat.class? right).isSome) :
    cat.fits a (cat.join a b) ∧ cat.fits b (cat.join a b)
    ∧ ∀ u : Ty, (u.kind = .anything ∨ u.kind = .anyObject
        ∨ ∃ id, u.kind = .object id ∧ u.arguments = []) →
      cat.fits a u → cat.fits b u → cat.fits (cat.join a b) u := by
  obtain ⟨-, hab, hba⟩ := join_bounds (complete_of_object ha hleft) (complete_of_object hb hright)
  refine ⟨hab, hba, fun u hu hau hbu ↦ ?_⟩
  apply h.join_objects_fits ha hb _ _ hau hbu
  · intro p hp
    rw [hp] at hu
    simp at hu
  · intro id hid
    rw [hid] at hu
    simp at hu
    exact .inl hu

end

end Catalogue

namespace Sample

/-- A protocol 🏠. -/
def pet : ProtocolDeclaration where
  space := Vocabulary.defaultNamespace
  name := ⟨0x1F3E0⟩

/-- A class 🐾. -/
def mammal : ClassDeclaration where
  space := Vocabulary.defaultNamespace
  name := ⟨0x1F43E⟩

/-- A class 🐱 that inherits from 🐾 and conforms to 🏠. -/
def tabby : ClassDeclaration where
  space := Vocabulary.defaultNamespace
  name := ⟨0x1F431⟩
  superclass? := some mammal.typeId
  protocols := [pet.typeId]

/-- A class 🐶 that inherits from 🐾 and conforms to 🏠. -/
def hound : ClassDeclaration where
  space := Vocabulary.defaultNamespace
  name := ⟨0x1F436⟩
  superclass? := some mammal.typeId
  protocols := [pet.typeId]

/-- The catalogue with 🏠, 🐾, 🐱 and 🐶. -/
def animals : Catalogue :=
  (((Catalogue.empty.addIfPossible (.ofProtocol pet)).addIfPossible (.ofClass mammal)).addIfPossible
    (.ofClass tabby)).addIfPossible (.ofClass hound)

theorem reachable_animals : animals.Reachable :=
  (((Catalogue.Reachable.empty.addIfPossible _).addIfPossible _).addIfPossible _).addIfPossible _

end Sample

/-- What 🐱 and an optional 🐶 have in common fits an optional 🐾. -/
theorem Catalogue.Reachable.classes_meet_animals :
    Sample.animals.Reachable
    ∧ Sample.animals.fits
        (Sample.animals.join (.object Sample.tabby.typeId) (Ty.object Sample.hound.typeId).optional)
        (Ty.object Sample.mammal.typeId).optional := by
  obtain ⟨-, -, hleast⟩ := Sample.reachable_animals.classes_meet
    (a := .object Sample.tabby.typeId) (b := (Ty.object Sample.hound.typeId).optional) rfl rfl
    (by decide +kernel) (by decide +kernel)
  refine ⟨Sample.reachable_animals, hleast _ (.inr (.inr ⟨_, rfl, rfl⟩)) ?_ ?_⟩
  · decide +kernel
  · decide +kernel

end Pictograph
