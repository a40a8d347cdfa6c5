import Pictograph.Proofs.Catalogue.RegistrationOrder
import Pictograph.Proofs.Compilation.Emitted

/-!
# Where the fields of an object are

An object has the fields of its class and of all ancestors of its class. A class numbers only the
fields that it declares itself, from the number of fields that its ancestors declare, and it does so
whenever one of its procedures is compiled, without a look at the classes that inherit from it. So
two methods of different classes that run on one object have their numbers from different
computations.

That they agree can be read off the *layout*, which lists the fields along a lineage, those of the
root first. The number of a field is its place in the layout of the class that declares it. The
lineage of an ancestor is a final part of the lineage of a class, hence its layout is an initial
part, and the places are the same in both.

## Main definitions

* `fieldCount`: how many fields some classes declare.
* `Catalogue.layout`: the fields of an object.
* `Catalogue.properAncestors`: the classes that a class inherits from.

## Main results

* `Catalogue.Reachable.layout_prefix`: the layout of an ancestor is an initial part.
* `Catalogue.Reachable.lineage_induction`: induction along a lineage, from the root.
* `Catalogue.Reachable.fields_laid_out`: the slots of one class, and of all classes of a lineage.
-/

namespace Pictograph

/-! ## Layouts -/

/-- How many fields some classes declare. -/
def fieldCount (classes : List Class) : Nat :=
  classes.foldr (fun c n ↦ c.fields.length + n) 0

/-- The fields along a lineage, those of the root first, each with the class that declares it. -/
def layoutOf : List Class → List (TypeId × Field)
  | [] => []
  | c :: ancestors => layoutOf ancestors ++ c.fields.map (c.id, ·)

/-- The field that a variable was declared for. -/
def Variable.field (v : Variable) : Field := ⟨v.name, v.type⟩

section

variable {l l' : List Class} {c : Class} {i : Nat} {f : Field}

@[simp]
theorem fieldCount_cons (c : Class) (l : List Class) :
    fieldCount (c :: l) = c.fields.length + fieldCount l := rfl

theorem fieldCount_perm (h : l.Perm l') : fieldCount l = fieldCount l' := by
  rw [fieldCount, fieldCount]
  apply h.foldr_eq'
  intro c _ d _ n
  exact Nat.add_left_comm ..

theorem length_layoutOf (l : List Class) : (layoutOf l).length = fieldCount l := by
  induction l with
  | nil => rfl
  | cons c l ih => simp [layoutOf, ih, Nat.add_comm]

/-- The layout grows at its end. -/
theorem layoutOf_prefix (h : l <:+ l') : layoutOf l <+: layoutOf l' := by
  obtain ⟨descendants, rfl⟩ := h
  induction descendants with
  | nil => exact List.prefix_refl _
  | cons c descendants ih => exact ih.trans (List.prefix_append _ _)

/-- The place of a field is behind all fields of the ancestors. -/
theorem getElem?_layoutOf (hf : c.fields[i]? = some f) :
    (layoutOf (c :: l))[fieldCount l + i]? = some (c.id, f) := by
  rw [layoutOf, ← length_layoutOf, List.getElem?_append_right (Nat.le_add_right _ _),
    Nat.add_sub_cancel_left, List.getElem?_map, hf, Option.map_some]

end

namespace Catalogue

variable {cat : Catalogue} {c : Class} {id : TypeId}

/-- The fields of the objects of a class. -/
def layout (cat : Catalogue) (id : TypeId) : List (TypeId × Field) := layoutOf (cat.lineage id)

/-- The classes that a class inherits from. -/
def properAncestors (cat : Catalogue) (c : Class) : List Class :=
  cat.classes.filter fun a ↦ cat.descends c.id a.id && a.id != c.id

theorem inheritedFieldCount_eq (cat : Catalogue) (c : Class) :
    cat.inheritedFieldCount c = fieldCount (cat.lineage c.id).tail := rfl

namespace Reachable

variable (h : cat.Reachable)

include h

/-- The lineage of a registered class begins with the class. -/
theorem exists_lineage_eq (hc : c ∈ cat.classes) :
    ∃ ancestors, cat.lineage c.id = c :: ancestors := by
  have hclass : cat.class? c.id = some c := h.consistent.class?_eq_some_iff.mpr ⟨hc, rfl⟩
  exact List.head?_eq_some_iff.mp ((head?_lineage cat c.id).trans hclass)

/-- A lineage has the classes that the class at its beginning descends from. -/
theorem mem_lineage_iff {a : Class} :
    a ∈ cat.lineage id ↔ a ∈ cat.classes ∧ cat.descends id a.id := by
  constructor
  · intro ha
    exact ⟨mem_classes.mpr (mem_of_mem_lineage ha), descends_iff.mpr ⟨a, ha, rfl⟩⟩
  · rintro ⟨ha, hdescends⟩
    obtain ⟨a', ha', hid⟩ := descends_iff.mp hdescends
    rwa [← h.consistent.eq_of_id (mem_of_mem_lineage ha') (mem_classes.mp ha) hid]

/-- Behind a class its lineage lists the classes that it inherits from. -/
theorem tail_lineage_perm (hc : c ∈ cat.classes) :
    (cat.lineage c.id).tail.Perm (cat.properAncestors c) := by
  obtain ⟨ancestors, hlineage⟩ := h.exists_lineage_eq hc
  have hnodup := h.nodup_lineage c.id
  rw [hlineage, List.map_cons, List.nodup_cons] at hnodup
  have hclasses : cat.classes.Nodup := List.nodup_reverse.mpr (List.Nodup.of_map _ h.nodup)
  rw [hlineage, List.tail_cons]
  refine (List.perm_ext_iff_of_nodup (.of_map _ hnodup.2) (hclasses.filter _)).mpr fun a ↦ ?_
  rw [List.mem_filter, Bool.and_eq_true, ← and_assoc, ← h.mem_lineage_iff,
    hlineage, List.mem_cons, bne_iff_ne]
  constructor
  · intro ha
    exact ⟨.inr ha, fun hid ↦ hnodup.1 (hid ▸ List.mem_map_of_mem ha)⟩
  · rintro ⟨rfl | ha, hne⟩
    · exact absurd rfl hne
    · exact ha

/-- The slots of a class begin behind the fields of the classes that it inherits from. -/
theorem inheritedFieldCount_eq (hc : c ∈ cat.classes) :
    cat.inheritedFieldCount c = fieldCount (cat.properAncestors c) := by
  rw [Catalogue.inheritedFieldCount_eq, fieldCount_perm (h.tail_lineage_perm hc)]

/-- **The layout of an ancestor is an initial part.** -/
theorem layout_prefix {ancestor : TypeId} (hdescends : cat.descends id ancestor) :
    cat.layout ancestor <+: cat.layout id :=
  layoutOf_prefix (h.lineage_suffix hdescends)

/-- A field is at one place in the objects of all classes that have it. -/
theorem getElem?_layout_of_descends {ancestor : TypeId} {i : Nat} {entry : TypeId × Field}
    (hdescends : cat.descends id ancestor) (hentry : (cat.layout ancestor)[i]? = some entry) :
    (cat.layout id)[i]? = some entry := by
  obtain ⟨rest, hrest⟩ := h.layout_prefix hdescends
  obtain ⟨hlt, -⟩ := List.getElem?_eq_some_iff.mp hentry
  rw [← hrest, List.getElem?_append_left hlt, hentry]

/-- **Induction along a lineage.** What holds of the empty list, and of the lineage of a class if it
holds of the lineage of its superclass, holds of all lineages. -/
theorem lineage_induction {motive : List Class → Prop} (nil : motive [])
    (cons : ∀ c ancestors, cat.lineage c.id = c :: ancestors → motive ancestors →
      motive (c :: ancestors)) (id : TypeId) : motive (cat.lineage id) := by
  generalize hl : cat.lineage id = l
  induction l generalizing id with
  | nil => exact nil
  | cons c ancestors ih =>
    have hclass : cat.class? id = some c := by rw [← head?_lineage, hl, List.head?_cons]
    have hid : c.id = id := id_of_class? hclass
    refine cons c ancestors (hid ▸ hl) ?_
    rw [h.lineage_eq, hclass, Option.elim_some, List.cons.injEq] at hl
    cases hsuper : c.superclass? with
    | none =>
      rw [hsuper, Option.elim_none] at hl
      rw [← hl.2]
      exact nil
    | some parent =>
      rw [hsuper, Option.elim_some] at hl
      exact ih parent hl.2

end Reachable

/-! ## The slots of one class -/

section

variable {isInitializer : Bool} {scope : Scope}

theorem map_field_fieldVariables (cat : Catalogue) (c : Class) (isInitializer : Bool) :
    (cat.fieldVariables c isInitializer).map (·.field) = c.fields := by
  rw [fieldVariables, List.map_map]
  refine Eq.trans (List.map_congr_left fun p _ ↦ ?_) (List.zipIdx_map_fst _ c.fields)
  simp [Variable.field, Field.variable_name, Field.variable_type]

/-- The slot of a field is its place in the layout of the class. -/
theorem Reachable.getElem?_layout (h : cat.Reachable) (hc : c ∈ cat.classes) {v : Variable}
    (hv : v ∈ cat.fieldVariables c isInitializer) :
    (cat.layout c.id)[v.slot]? = some (c.id, v.field) := by
  obtain ⟨ancestors, hlineage⟩ := h.exists_lineage_eq hc
  obtain ⟨⟨f, slot⟩, hf, rfl⟩ := List.mem_map.mp hv
  obtain ⟨hle, hf⟩ := List.mk_mem_zipIdx_iff_le_and_getElem?_sub.mp hf
  have hcount : cat.inheritedFieldCount c = fieldCount ancestors := by
    rw [Catalogue.inheritedFieldCount_eq, hlineage, List.tail_cons]
  have hplace : fieldCount ancestors + (slot - cat.inheritedFieldCount c) = slot := by
    rw [← hcount, Nat.add_sub_cancel' hle]
  have hfield : (f.variable isInitializer slot).field = f := by
    rw [Variable.field, f.variable_name, f.variable_type]
  rw [layout, hlineage, f.variable_slot, hfield, ← hplace]
  exact getElem?_layoutOf hf

end

/-! ## The slots along a lineage -/

/-- Slots that begin, in every class, behind the fields of the ancestors are numbered through. -/
theorem Reachable.flatMap_slots (h : cat.Reachable) {slots : Class → List Nat}
    (hslots : ∀ c ∈ cat.lineage id,
      slots c = List.range' (cat.inheritedFieldCount c) c.fields.length) :
    (cat.lineage id).reverse.flatMap slots = List.range (fieldCount (cat.lineage id)) := by
  revert hslots
  apply h.lineage_induction (motive := fun l ↦
    (∀ c ∈ l, slots c = List.range' (cat.inheritedFieldCount c) c.fields.length) →
      l.reverse.flatMap slots = List.range (fieldCount l))
  case nil => exact fun _ ↦ rfl
  case cons =>
    intro c ancestors hlineage ih hslots
    rw [List.forall_mem_cons] at hslots
    have hcount : cat.inheritedFieldCount c = fieldCount ancestors := by
      rw [Catalogue.inheritedFieldCount_eq, hlineage, List.tail_cons]
    calc (c :: ancestors).reverse.flatMap slots
      _ = ancestors.reverse.flatMap slots ++ slots c := by simp
      _ = List.range' 0 (fieldCount ancestors)
          ++ List.range' (0 + fieldCount ancestors) c.fields.length := by
        rw [ih hslots.2, hslots.1, hcount, List.range_eq_range', Nat.zero_add]
      _ = List.range (fieldCount (c :: ancestors)) := by
        rw [List.range'_append_1, List.range_eq_range', fieldCount_cons, Nat.add_comm]

/-- **Where the fields of an object are.** In a catalogue that registrations lead to,

* a class that can number its fields has them in consecutive slots, in the order of declaration,
  from the number of fields that the classes it inherits from declare;
* whatever class an object is of that has the fields, the slots are their places in its layout;
* if all classes of a lineage can number their fields, then no two of them use one slot, and the
  slots of all, those of the root first, are the numbers up to that of all fields. -/
theorem Reachable.fields_laid_out (h : cat.Reachable) :
    (∀ c ∈ cat.classes, ∀ isInitializer scope, cat.fieldScope c isInitializer = .ok scope →
      scope.declared.map (·.field) = c.fields
      ∧ scope.declared.map (·.slot)
        = List.range' (fieldCount (cat.properAncestors c)) c.fields.length
      ∧ ∀ id, cat.descends id c.id → ∀ v ∈ scope.declared,
        (cat.layout id)[v.slot]? = some (c.id, v.field))
    ∧ ∀ id (slots : Class → List Nat),
      (∀ c ∈ cat.lineage id, ∃ isInitializer scope,
        cat.fieldScope c isInitializer = .ok scope ∧ slots c = scope.declared.map (·.slot)) →
      (cat.lineage id).Pairwise (fun c d ↦ (slots c).Disjoint (slots d))
      ∧ (cat.lineage id).reverse.flatMap slots = List.range (fieldCount (cat.lineage id)) := by
  constructor
  · intro c hc isInitializer scope hscope
    have hdeclared : scope.declared = cat.fieldVariables c isInitializer := fieldScope_ok hscope
    rw [hdeclared]
    refine ⟨map_field_fieldVariables .., ?_, fun id hdescends v hv ↦ ?_⟩
    · rw [map_slot_fieldVariables, h.inheritedFieldCount_eq hc]
    · exact h.getElem?_layout_of_descends hdescends (h.getElem?_layout hc hv)
  · intro id slots hscopes
    have hslots : ∀ c ∈ cat.lineage id,
        slots c = List.range' (cat.inheritedFieldCount c) c.fields.length := by
      intro c hc
      obtain ⟨isInitializer, scope, hscope, hsame⟩ := hscopes c hc
      rw [hsame, fieldScope_ok hscope, map_slot_fieldVariables]
    have hrange := h.flatMap_slots hslots
    refine ⟨?_, hrange⟩
    have hnodup : ((cat.lineage id).reverse.flatMap slots).Nodup := hrange ▸ List.nodup_range
    have hapart := (List.nodup_flatMap.mp hnodup).2
    rw [List.pairwise_reverse] at hapart
    exact hapart.imp fun hdisjoint ↦ fun _ hc hd ↦ hdisjoint hd hc

end Catalogue

/-! ## A lineage of three classes -/

namespace Sample

/-- A class 🐱 with two fields. -/
def housecat : ClassDeclaration where
  space := Vocabulary.defaultNamespace
  name := ⟨0x1F431⟩
  fields := [⟨"name", .string⟩, ⟨"lives", .integer⟩]

/-- A subclass 🐯 of 🐱 without fields of its own. -/
def tiger : ClassDeclaration where
  space := Vocabulary.defaultNamespace
  name := ⟨0x1F42F⟩
  superclass? := some housecat.typeId

/-- A subclass 🦁 of 🐯 with a field. -/
def lion : ClassDeclaration where
  space := Vocabulary.defaultNamespace
  name := ⟨0x1F981⟩
  superclass? := some tiger.typeId
  fields := [⟨"mane", .integer⟩]

/-- The standard types and the three classes. -/
def pride : Catalogue :=
  [.ofClass housecat, .ofClass tiger, .ofClass lion].foldl Catalogue.addIfPossible .standard

theorem reachable_pride : pride.Reachable := Catalogue.Reachable.standard.foldl_addIfPossible _

/-- The registered class 🦁. -/
def lionClass : Class := (pride.class? lion.typeId).get (by decide +kernel)

/-- The slots of the fields that a class of these declares. -/
def slotsIn (c : Class) : List Nat := (pride.fieldVariables c false).map (·.slot)

end Sample

/-- The field of 🦁 is in the slot behind those of 🐱, and all slots are 0, 1 and 2. -/
theorem Catalogue.Reachable.fields_laid_out_pride :
    Sample.pride.Reachable ∧ Sample.lionClass ∈ Sample.pride.classes
    ∧ (∃ scope, Sample.pride.fieldScope Sample.lionClass true = .ok scope
      ∧ scope.declared.map (·.slot) = [2])
    ∧ (∀ c ∈ Sample.pride.lineage Sample.lion.typeId, ∃ isInitializer scope,
      Sample.pride.fieldScope c isInitializer = .ok scope
        ∧ Sample.slotsIn c = scope.declared.map (·.slot))
    ∧ (Sample.pride.lineage Sample.lion.typeId).Pairwise
        (fun c d ↦ (Sample.slotsIn c).Disjoint (Sample.slotsIn d))
    ∧ (Sample.pride.lineage Sample.lion.typeId).reverse.flatMap Sample.slotsIn = [0, 1, 2] := by
  obtain ⟨hclass, hlineage⟩ := Sample.reachable_pride.fields_laid_out
  have hmem : Sample.lionClass ∈ Sample.pride.classes := by decide +kernel
  have hscope : Sample.pride.fieldScope Sample.lionClass true
      = .ok ⟨Sample.pride.fieldVariables Sample.lionClass true⟩ := by
    decide +kernel
  have hscopes : ∀ c ∈ Sample.pride.lineage Sample.lion.typeId,
      Sample.pride.fieldScope c false = .ok ⟨Sample.pride.fieldVariables c false⟩ := by
    decide +kernel
  have hslots : ∀ c ∈ Sample.pride.lineage Sample.lion.typeId, ∃ isInitializer scope,
      Sample.pride.fieldScope c isInitializer = .ok scope
        ∧ Sample.slotsIn c = scope.declared.map (·.slot) :=
    fun c hc ↦ ⟨false, _, hscopes c hc, rfl⟩
  obtain ⟨-, hown, -⟩ := hclass _ hmem true _ hscope
  obtain ⟨hapart, hrange⟩ := hlineage Sample.lion.typeId Sample.slotsIn hslots
  have hbegin : fieldCount (Sample.pride.properAncestors Sample.lionClass) = 2 := by
    decide +kernel
  have hlength : Sample.lionClass.fields.length = 1 := by decide +kernel
  have hcount : fieldCount (Sample.pride.lineage Sample.lion.typeId) = 3 := by decide +kernel
  rw [hbegin, hlength] at hown
  rw [hcount] at hrange
  exact ⟨Sample.reachable_pride, hmem, ⟨_, hscope, hown⟩, hslots, hapart, hrange⟩

end Pictograph
