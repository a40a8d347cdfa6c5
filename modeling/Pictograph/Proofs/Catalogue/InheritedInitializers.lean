import Pictograph.Proofs.Catalogue.DispatchTables
import Pictograph.Proofs.Catalogue.RegistrationOrder

/-!
# Initializers that subclasses inherit

An initializer that a class does not declare itself is looked up among the *required* ones of its
ancestors. Slots are not assigned that way. A declaration takes over the slot of the nearest one
above it, required or not, and what a call dispatches to is the nearest declaration below that slot.

So the two walks go different ways if an ancestor declares a required initializer anew and does not
require it any more: the lookup passes over the new declaration and finds the old one, and the slot
of the old one is that of the new one. A call is checked against one declaration and dispatches to
the other. Methods and class methods have only one walk.

## Main definitions

* `Catalogue.declarations`: the declarations of a symbol along a lineage, the nearest one first.
* `Catalogue.dispatched?`: what a class has in a slot.

## Main results

* `Catalogue.Reachable.dispatched?_of_nearest?`: the nearest declaration is in its slot.
* `Catalogue.Reachable.initializer?_dispatches`: what is in the slot of an initializer that is
  found, and when it is the initializer itself.
* `initializer?_overlooks_override`: an initializer that is found and is not in its slot.
-/

namespace Pictograph

namespace Catalogue

/-- The declarations of a symbol along the lineage of a class, the nearest one first. -/
def declarations (cat : Catalogue) (kind : Procedure.Kind) (id : TypeId) (s : Symbol) :
    List Member :=
  (cat.lineage id).filterMap (·.own? kind s)

/-- What a class has in a slot of its dispatch table: the nearest declaration of the symbol
there. -/
def dispatched? (cat : Catalogue) (kind : Procedure.Kind) (id : TypeId) (slot : Nat) :
    Option Member :=
  (cat.dispatchTable kind id)[slot]?.bind (cat.nearest? kind id)

variable {cat : Catalogue} {kind : Procedure.Kind} {id : TypeId} {s : Symbol} {m n : Member}

theorem nearest?_eq_head? : cat.nearest? kind id s = (cat.declarations kind id s).head? :=
  List.head?_filterMap.symm

/-- An initializer is found if the class declares it, and otherwise among the required ones. -/
theorem initializer?_eq {t : Ty} (hid : t.objectId? = some id) :
    cat.initializer? t s = ((cat.class? id).bind (·.own? .initializer s)).or
      ((cat.declarations .initializer id s).find? (·.isRequired)) := by
  rw [initializer?, hid, Option.map_some, ← head?_lineage, declarations]
  cases cat.lineage id with
  | nil => rfl
  | cons c ancestors =>
    rw [List.head?_cons, Option.bind_some, List.filterMap_cons]
    dsimp only
    cases c.own? .initializer s <;> rfl

/-- A declaration is the nearest one on the class that it stands in. -/
theorem exists_nearest?_of_mem_declarations (hcat : cat.Reachable)
    (hm : m ∈ cat.declarations kind id s) :
    ∃ ancestor, cat.descends id ancestor ∧ cat.nearest? kind ancestor s = some m := by
  obtain ⟨c, hc, hown⟩ := List.mem_filterMap.mp hm
  refine ⟨c.id, descends_iff.mpr ⟨c, hc, rfl⟩, ?_⟩
  have hclass : cat.class? c.id = some c :=
    List.find?_of_nodup_map hcat.nodup (mem_of_mem_lineage hc) (beq_self_eq_true _)
      fun _ _ htest ↦ beq_iff_eq.mp htest
  have hhead := (head?_lineage cat c.id).trans hclass
  obtain ⟨ancestors, hlineage⟩ := List.head?_eq_some_iff.mp hhead
  rw [nearest?, hlineage, List.findSome?_cons, hown]

namespace Reachable

/-- **The nearest declaration is in its slot.** So methods and class methods dispatch to what is
found. -/
theorem dispatched?_of_nearest? (h : cat.Reachable) (hn : cat.nearest? kind id s = some n) :
    cat.dispatched? kind id n.slot = some n := by
  obtain ⟨-, -, hpositions, -⟩ := h.dispatch_tables_dense kind id
  have hslot : (cat.dispatchTable kind id)[n.slot]? = some s := by
    rw [← hpositions, hn, Option.map_some]
  rw [dispatched?, hslot, Option.bind_some, hn]

/-- **What an initializer dispatches to.** If an initializer is found on a class, then the nearest
declaration of its symbol is in its slot. This is the initializer that was found if and only if the
class declares it itself or the nearest declaration is required. -/
theorem initializer?_dispatches (h : cat.Reachable) {t : Ty} (hm : cat.initializer? t s = some m) :
    ∃ id n, t.objectId? = some id ∧ cat.nearest? .initializer id s = some n
      ∧ cat.dispatched? .initializer id m.slot = some n
      ∧ (m = n ↔ ((cat.class? id).bind (·.own? .initializer s)).isSome ∨ n.isRequired) := by
  obtain ⟨id, hid, -⟩ := initializer?_eq_some hm
  rw [initializer?_eq hid] at hm
  cases hown : (cat.class? id).bind (·.own? .initializer s) with
  | some own =>
    -- the class declares it, so nothing is nearer
    rw [hown, Option.some_or] at hm
    cases hm
    obtain ⟨c, hc, hown'⟩ := Option.bind_eq_some_iff.mp hown
    obtain ⟨ancestors, hlineage⟩ := List.head?_eq_some_iff.mp ((head?_lineage cat id).trans hc)
    have hn : cat.nearest? .initializer id s = some m := by
      rw [nearest?, hlineage, List.findSome?_cons, hown']
    exact ⟨id, m, hid, hn, h.dispatched?_of_nearest? hn,
      iff_of_true rfl (.inl (Option.isSome_of_eq_some hown))⟩
  | none =>
    rw [hown, Option.none_or] at hm
    obtain ⟨ancestor, hdescends, hnearest⟩ :=
      exists_nearest?_of_mem_declarations h (List.mem_of_find?_eq_some hm)
    obtain ⟨n, hn, hslot⟩ := h.slot_of_descends hdescends hnearest
    refine ⟨id, n, hid, hn, hslot ▸ h.dispatched?_of_nearest? hn, ?_⟩
    obtain ⟨farther, hfarther⟩ := List.head?_eq_some_iff.mp (nearest?_eq_head?.symm.trans hn)
    have hrequired : m.isRequired := by simpa using List.find?_some hm
    rw [hfarther, List.find?_cons] at hm
    constructor
    · rintro rfl
      exact .inr hrequired
    · rintro (hdeclared | hn)
      · rw [hown] at hdeclared
        cases hdeclared
      · rw [hn] at hm
        exact (Option.some.inj hm).symm

end Reachable

end Catalogue

namespace Sample

/-- A class 🐱 with a required initializer 🆕 that takes an integer, and a required one 🐣. -/
def founder : ClassDeclaration where
  space := Vocabulary.defaultNamespace
  name := ⟨0x1F431⟩
  initializers := [{ symbol := ⟨0x1F195⟩, arguments := [⟨"n", .integer⟩], isRequired := true },
    { symbol := ⟨0x1F423⟩, isRequired := true }]

/-- A subclass 🐯 of 🐱 that declares 🆕 anew, without arguments, and does not require it. -/
def heir : ClassDeclaration where
  space := Vocabulary.defaultNamespace
  name := ⟨0x1F42F⟩
  superclass? := some founder.typeId
  initializers := [{ symbol := ⟨0x1F195⟩ }]

/-- A subclass 🦁 of 🐯 without initializers of its own. -/
def latecomer : ClassDeclaration where
  space := Vocabulary.defaultNamespace
  name := ⟨0x1F981⟩
  superclass? := some heir.typeId

/-- The catalogue of the three classes. -/
def dynasty : Catalogue :=
  ((Catalogue.empty.addIfPossible (.ofClass founder)).addIfPossible (.ofClass heir)).addIfPossible
    (.ofClass latecomer)

theorem reachable_dynasty : dynasty.Reachable :=
  ((Catalogue.Reachable.empty.addIfPossible _).addIfPossible _).addIfPossible _

end Sample

/-- The subclass has the initializer 🐣 of the first class, and the first class has it in the
slot. -/
theorem Catalogue.Reachable.initializer?_dispatches_required :
    ∃ m, Sample.dynasty.initializer? (.object Sample.latecomer.typeId) ⟨0x1F423⟩ = some m
      ∧ m.owner = Sample.founder.typeId
      ∧ Sample.dynasty.dispatched? .initializer Sample.latecomer.typeId m.slot = some m := by
  have hfound : ((Sample.dynasty.initializer? (.object Sample.latecomer.typeId) ⟨0x1F423⟩).map
      (·.owner)) = some Sample.founder.typeId := by
    decide +kernel
  obtain ⟨m, hm, howner⟩ := Option.map_eq_some_iff.mp hfound
  obtain ⟨id, n, hid, hn, hdispatched, hsame⟩ :=
    Sample.reachable_dynasty.initializer?_dispatches hm
  obtain rfl : Sample.latecomer.typeId = id := Option.some.inj hid
  have hrequired : (Sample.dynasty.nearest? .initializer Sample.latecomer.typeId ⟨0x1F423⟩).any
      (·.isRequired) := by
    decide +kernel
  rw [hn] at hrequired
  obtain rfl := hsame.mpr (.inr hrequired)
  exact ⟨m, hm, howner, hdispatched⟩

/-- **An override may be overlooked.** On the third class, 🆕 is found on the first one and takes an
integer. Its slot has the initializer of the second class, which is nearer and takes nothing. -/
theorem initializer?_overlooks_override :
    Sample.dynasty.Reachable
    ∧ ∃ m n, Sample.dynasty.initializer? (.object Sample.latecomer.typeId) ⟨0x1F195⟩ = some m
      ∧ Sample.dynasty.nearest? .initializer Sample.latecomer.typeId ⟨0x1F195⟩ = some n
      ∧ Sample.dynasty.dispatched? .initializer Sample.latecomer.typeId m.slot = some n
      ∧ m.owner = Sample.founder.typeId ∧ n.owner = Sample.heir.typeId
      ∧ m.arguments = [⟨"n", .integer⟩] ∧ n.arguments = [] := by
  refine ⟨Sample.reachable_dynasty, _, _, Option.eq_some_of_isSome (by decide +kernel),
    Option.eq_some_of_isSome (by decide +kernel), ?_⟩
  decide +kernel

end Pictograph
