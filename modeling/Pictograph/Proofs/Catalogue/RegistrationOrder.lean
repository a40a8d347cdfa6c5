import Pictograph.Proofs.Catalogue.Identities

/-!
# The order of registrations

A catalogue has a table of classes and a table of protocols, and every entry carries its position. A
class is registered only if its superclass and its protocols are there already, so a superclass
stands further up in the table. Whoever climbs from a class to its superclass, and on to the
superclass of that, therefore gets to an end.

The lineage of a class is defined by recursion on the list of classes, and ends for this reason
alone, whatever the list looks like. Climbing looks every superclass up in the whole catalogue. That
both come to the same is due to the order of registrations.

## Main definitions

* `Catalogue.afterCalls`: the catalogue after some calls, of which any may be refused.
* `Indexed`: every member of a table carries its position.
* `Catalogue.Ordered`: what registrations keep true of the tables.
* `Catalogue.climb?`: the classes on the way to the root, looked up one after the other.

## Main results

* `Catalogue.Reachable.ordered`: registrations keep the tables in order.
* `Catalogue.Reachable.climb?_eq`: climbing goes through the lineage and ends behind it.
* `Catalogue.registrations_ordered`: the tables and the lineages after any calls.
-/

namespace Pictograph

/-! ## Calls -/

/-- A call that registers types. -/
inductive RegistrationCall where
  /-- Registers one type. -/
  | declare (d : Declaration)
  /-- Registers the standard types. -/
  | standard

namespace Catalogue

/-- The catalogue after a call. A declaration that is refused leaves it as it is. -/
def afterCall (cat : Catalogue) : RegistrationCall → Catalogue
  | .declare d =>
    match cat.add d with
    | .ok extended => extended
    | .error _ => cat
  | .standard => cat.addStandard

/-- The catalogue after some calls, starting from the empty one. -/
def afterCalls (calls : List RegistrationCall) : Catalogue :=
  calls.foldl afterCall empty

theorem Reachable.afterCall {cat : Catalogue} (h : cat.Reachable) (call : RegistrationCall) :
    (cat.afterCall call).Reachable := by
  cases call with
  | declare d =>
    rw [Catalogue.afterCall]
    split
    · next hadd => exact h.add hadd
    · exact h
  | standard => exact h.addStandard

theorem reachable_afterCalls (calls : List RegistrationCall) : (afterCalls calls).Reachable := by
  rw [afterCalls]
  generalize hstart : empty = start
  have h : start.Reachable := hstart ▸ .empty
  clear hstart
  induction calls generalizing start with
  | nil => exact h
  | cons call calls ih => exact ih (start.afterCall call) (h.afterCall call)

end Catalogue

/-! ## Tables -/

/-- A member of a list is found if nothing else has its key. -/
theorem List.find?_of_nodup_map {α κ : Type} {key : α → κ} {test : α → Bool} {l : List α} {a : α}
    (hl : (l.map key).Nodup) (ha : a ∈ l) (htest : test a)
    (hkey : ∀ b ∈ l, test b → key b = key a) : l.find? test = some a := by
  have hsome : (l.find? test).isSome := List.find?_isSome.mpr ⟨a, ha, htest⟩
  obtain ⟨b, hb⟩ := Option.isSome_iff_exists.mp hsome
  have hmem : b ∈ l := List.mem_of_find?_eq_some hb
  rw [hb, List.inj_on_of_nodup_map hl hmem ha (hkey b hmem (List.find?_some hb))]

section

variable {α : Type} {index : α → Nat} {table : List α} {a : α}

/-- Every member of a table carries its position. -/
def Indexed (index : α → Nat) (table : List α) : Prop :=
  ∀ i a, table[i]? = some a → index a = i

theorem Indexed.nil : Indexed index ([] : List α) := by
  intro i a h
  simp at h

/-- A table grows at its end. -/
theorem Indexed.concat (h : Indexed index table) (ha : index a = table.length) :
    Indexed index (table ++ [a]) := by
  intro i b hb
  by_cases hi : i < table.length
  · rw [List.getElem?_append_left hi] at hb
    exact h i b hb
  · have hle : table.length ≤ i := Nat.le_of_not_lt hi
    rw [List.getElem?_append_right hle, List.getElem?_singleton] at hb
    by_cases hzero : i - table.length = 0
    · rw [if_pos hzero] at hb
      cases hb
      omega
    · rw [if_neg hzero] at hb
      cases hb

/-- A member is at its index and nowhere else. -/
theorem Indexed.getElem?_iff (h : Indexed index table) (ha : a ∈ table) {i : Nat} :
    table[i]? = some a ↔ i = index a := by
  obtain ⟨j, hj⟩ := List.getElem?_of_mem ha
  have hindex : index a = j := h j a hj
  constructor
  · intro hi
    exact (h i a hi).symm
  · rintro rfl
    rw [hindex]
    exact hj

theorem Indexed.lt (h : Indexed index table) (ha : a ∈ table) : index a < table.length := by
  have hget : table[index a]? = some a := (h.getElem?_iff ha).mpr rfl
  exact (List.getElem?_eq_some_iff.mp hget).1

end

namespace Catalogue

/-- What registrations keep true of the tables. -/
structure Ordered (cat : Catalogue) : Prop where
  /-- A class carries its position among the classes. -/
  classIndex : Indexed Class.index cat.classes
  /-- A protocol carries its position among the protocols. -/
  protocolIndex : Indexed Protocol.index cat.protocols
  /-- A superclass is registered, further up in the table. -/
  superclass : ∀ c ∈ cat.classes, ∀ parent, c.superclass? = some parent →
    ∃ s, cat.class? parent = some s ∧ s.index < c.index
  /-- The protocols of a class are registered. -/
  protocol : ∀ c ∈ cat.classes, ∀ id ∈ c.protocols, (cat.protocol? id).isSome

section

variable {cat : Catalogue} {id : TypeId} {c : Class} {p : Protocol}

theorem mem_classes : c ∈ cat.classes ↔ c ∈ cat.latestClasses := List.mem_reverse

theorem mem_protocols : p ∈ cat.protocols ↔ p ∈ cat.latestProtocols := List.mem_reverse

theorem classes_withClass (cat : Catalogue) (c : Class) :
    (cat.withClass c).classes = cat.classes ++ [c] := List.reverse_cons

/-- A class that is registered is still found when another one has joined it. -/
theorem Admits.class?_withClass {d : ClassDeclaration} (hd : cat.Admits d)
    (h : cat.class? id = some c) : (cat.withClass (cat.entry d)).class? id = some c := by
  have hne : (cat.entry d).id ≠ id := by
    rintro rfl
    rw [id_entry, hd.class?_eq_none] at h
    cases h
  rw [Catalogue.class?_withClass, if_neg hne, h]

/-- Classes are found under their identities. -/
theorem Consistent.class?_eq_some_iff (h : cat.Consistent) :
    cat.class? id = some c ↔ c ∈ cat.classes ∧ c.id = id := by
  constructor
  · intro hc
    exact ⟨mem_classes.mpr (mem_of_class? hc), id_of_class? hc⟩
  · rintro ⟨hmem, rfl⟩
    have hnodup := (List.nodup_append.mp h.nodup).1
    exact List.find?_of_nodup_map hnodup (mem_classes.mp hmem) (beq_self_eq_true _)
      fun _ _ ↦ beq_iff_eq.mp

/-- Protocols are found under their identities. -/
theorem Consistent.protocol?_eq_some_iff (h : cat.Consistent) :
    cat.protocol? id = some p ↔ p ∈ cat.protocols ∧ p.id = id := by
  constructor
  · intro hp
    exact ⟨mem_protocols.mpr (mem_of_protocol? hp), id_of_protocol? hp⟩
  · rintro ⟨hmem, rfl⟩
    have hnodup := (List.nodup_append.mp (List.nodup_append.mp h.nodup).2.1).1
    exact List.find?_of_nodup_map hnodup (mem_protocols.mp hmem) (beq_self_eq_true _)
      fun _ _ ↦ beq_iff_eq.mp

end

namespace Ordered

variable {cat : Catalogue}

theorem empty : Ordered .empty where
  classIndex := .nil
  protocolIndex := .nil
  superclass := nofun
  protocol := nofun

/-- A new class is the last one of the table, and its superclass is there already. -/
theorem withClass {d : ClassDeclaration} (h : cat.Ordered) (hd : cat.Admits d) :
    (cat.withClass (cat.entry d)).Ordered where
  classIndex := by
    rw [classes_withClass]
    exact h.classIndex.concat List.length_reverse.symm
  protocolIndex := h.protocolIndex
  superclass := by
    intro c hc parent hparent
    rw [classes_withClass, List.mem_append, List.mem_singleton] at hc
    obtain hc | rfl := hc
    · obtain ⟨s, hs, hlt⟩ := h.superclass c hc parent hparent
      exact ⟨s, hd.class?_withClass hs, hlt⟩
    · obtain ⟨s, hs⟩ := Option.isSome_iff_exists.mp (hd.superclass parent hparent)
      have hlt : s.index < cat.classes.length :=
        h.classIndex.lt (mem_classes.mpr (mem_of_class? hs))
      rw [classes, List.length_reverse] at hlt
      exact ⟨s, hd.class?_withClass hs, hlt⟩
  protocol := by
    intro c hc
    rw [classes_withClass, List.mem_append, List.mem_singleton] at hc
    obtain hc | rfl := hc
    · exact h.protocol c hc
    · exact hd.protocols

/-- A new protocol is the last one of its table. -/
theorem withProtocol (d : ProtocolDeclaration) (h : cat.Ordered) :
    Ordered { cat with latestProtocols := cat.protocolEntry d :: cat.latestProtocols } where
  classIndex := h.classIndex
  protocolIndex := by
    rw [protocols, List.reverse_cons]
    exact h.protocolIndex.concat List.length_reverse.symm
  superclass := h.superclass
  protocol := by
    intro c hc id hid
    have hold := protocol?_isSome_iff.mp (h.protocol c hc id hid)
    exact protocol?_isSome_iff.mpr (List.mem_cons_of_mem _ hold)

end Ordered

/-- **Registrations keep the tables in order.** -/
theorem Reachable.ordered {cat : Catalogue} (h : cat.Reachable) : cat.Ordered := by
  induction h with
  | empty => exact .empty
  | add _ hadd ih =>
    cases registers_of_add hadd with
    | ofClass hd => exact ih.withClass hd
    | @ofProtocol d _ => exact ih.withProtocol d
    | ofEnumeration => exact { ih with }

/-! ## Climbing to the root -/

/-- The superclass of a class, looked up in the catalogue. -/
def parent? (cat : Catalogue) (c : Class) : Option Class :=
  c.superclass?.bind cat.class?

/-- The class `n` steps up from the class with an identity, if there are so many. -/
def climb? (cat : Catalogue) (id : TypeId) : Nat → Option Class
  | 0 => cat.class? id
  | n + 1 => (cat.climb? id n).bind cat.parent?

section

variable {cat : Catalogue} {id parent : TypeId} {c : Class}

theorem climb?_of_none (h : cat.class? id = none) (n : Nat) : cat.climb? id n = none := by
  induction n with
  | zero => exact h
  | succ n ih => rw [climb?, ih, Option.bind_none]

/-- The way from a class leads on as the way from its superclass. -/
theorem climb?_succ (hc : cat.class? id = some c) (n : Nat) :
    cat.climb? id (n + 1) = c.superclass?.bind (cat.climb? · n) := by
  induction n with
  | zero =>
    rw [climb?, climb?, hc, Option.bind_some, parent?]
    rfl
  | succ n ih =>
    rw [climb?, ih]
    cases c.superclass? <;> rfl

/-- A new class does not bear on the lineage of a superclass, which is an older class. -/
theorem Admits.lineage_superclass {d : ClassDeclaration} (hd : cat.Admits d)
    (hc : ∀ parent, c.superclass? = some parent → (cat.class? parent).isSome) :
    c.superclass?.elim [] (cat.withClass (cat.entry d)).lineage
      = c.superclass?.elim [] cat.lineage := by
  cases hs : c.superclass? with
  | none => rw [Option.elim_none, Option.elim_none]
  | some parent =>
    rw [Option.elim_some, Option.elim_some]
    refine lineage_withClass_of_ne (c := cat.entry d) ?_
    rintro rfl
    have hsome := hc _ hs
    rw [id_entry, hd.class?_eq_none] at hsome
    cases hsome

/-- The lineage of an identity: the class, and the lineage of its superclass. -/
theorem Reachable.lineage_eq (h : cat.Reachable) (id : TypeId) :
    cat.lineage id = (cat.class? id).elim [] fun c ↦ c :: c.superclass?.elim [] cat.lineage := by
  induction h generalizing id with
  | empty => rfl
  | @add cat cat' d hcat hadd ih =>
    obtain hsame | ⟨d, hd, rfl⟩ := latestClasses_of_add hadd
    · have hlineage : cat'.lineage = cat.lineage := by
        funext id
        rw [lineage, hsame, lineage]
      have hclass : cat'.class? id = cat.class? id := by rw [class?, hsame, class?]
      rw [hlineage, hclass, ih id]
    rw [class?_withClass]
    by_cases hid : (cat.entry d).id = id
    · subst hid
      rw [if_pos rfl, lineage_withClass_self, Option.elim_some,
        hd.lineage_superclass hd.superclass]
    · rw [if_neg hid, lineage_withClass_of_ne hid, ih id]
      cases hc : cat.class? id with
      | none => rw [Option.elim_none, Option.elim_none]
      | some c =>
        rw [Option.elim_some, Option.elim_some, hd.lineage_superclass]
        intro parent hparent
        have hmem : c ∈ cat.classes := mem_classes.mpr (mem_of_class? hc)
        obtain ⟨s, hs, -⟩ := hcat.ordered.superclass c hmem parent hparent
        exact Option.isSome_of_eq_some hs

/-- **Climbing goes through the lineage and ends behind it.** -/
theorem Reachable.climb?_eq (h : cat.Reachable) (id : TypeId) (n : Nat) :
    cat.climb? id n = (cat.lineage id)[n]? := by
  induction n generalizing id with
  | zero => rw [climb?, ← List.head?_eq_getElem?, head?_lineage]
  | succ n ih =>
    rw [h.lineage_eq id]
    cases hc : cat.class? id with
    | none => rw [climb?_of_none hc, Option.elim_none, List.getElem?_nil]
    | some c =>
      rw [climb?_succ hc, Option.elim_some, List.getElem?_cons_succ]
      cases c.superclass? with
      | none => rfl
      | some parent => exact ih parent

theorem Reachable.nodup_lineage (h : cat.Reachable) (id : TypeId) :
    ((cat.lineage id).map (·.id)).Nodup :=
  ((lineageIn_sublist cat.latestClasses id).map _).nodup h.nodup

end

/-! ## After any calls -/

/-- **The order of registrations.** After any calls, whether they were refused or not:

* no identity is registered for two sorts of type;
* the tables list every class and every protocol once, at its index;
* the superclass of a class is registered with a smaller index, and the protocols of a class are
  registered;
* climbing from any identity ends, and meets no class twice;
* inheritance is a partial order on the classes. -/
theorem registrations_ordered (calls : List RegistrationCall) :
    let cat := afterCalls calls
    (∀ id, (cat.class? id = none ∨ cat.protocol? id = none)
      ∧ (cat.class? id = none ∨ cat.enumeration? id = none)
      ∧ (cat.protocol? id = none ∨ cat.enumeration? id = none))
    ∧ (∀ id c, cat.class? id = some c ↔ c ∈ cat.classes ∧ c.id = id)
    ∧ (∀ c ∈ cat.classes, ∀ i, cat.classes[i]? = some c ↔ i = c.index)
    ∧ (∀ id p, cat.protocol? id = some p ↔ p ∈ cat.protocols ∧ p.id = id)
    ∧ (∀ p ∈ cat.protocols, ∀ i, cat.protocols[i]? = some p ↔ i = p.index)
    ∧ (∀ c ∈ cat.classes,
      (∀ parent, c.superclass? = some parent →
        ∃ s, cat.class? parent = some s ∧ s.index < c.index)
      ∧ ∀ id ∈ c.protocols, (cat.protocol? id).isSome)
    ∧ (∀ id, (∀ n, cat.climb? id n = (cat.lineage id)[n]?)
      ∧ ((cat.lineage id).map (·.id)).Nodup)
    ∧ (∀ a, (cat.class? a).isSome → cat.descends a a)
    ∧ (∀ a b, cat.descends a b → cat.descends b a → a = b)
    ∧ ∀ a b c, cat.descends a b → cat.descends b c → cat.descends a c := by
  intro cat
  have h : cat.Reachable := reachable_afterCalls calls
  have hapart : cat.Consistent := h.consistent
  have horder : cat.Ordered := h.ordered
  refine ⟨fun id ↦ ⟨?_, ?_, ?_⟩, fun _ _ ↦ hapart.class?_eq_some_iff,
    fun _ hc _ ↦ horder.classIndex.getElem?_iff hc, fun _ _ ↦ hapart.protocol?_eq_some_iff,
    fun _ hp _ ↦ horder.protocolIndex.getElem?_iff hp,
    fun c hc ↦ ⟨horder.superclass c hc, horder.protocol c hc⟩,
    fun id ↦ ⟨h.climb?_eq id, h.nodup_lineage id⟩, fun _ ↦ descends_refl,
    fun _ _ ↦ h.descends_antisymm, fun _ _ _ ↦ h.descends_trans⟩
  · by_cases hp : (cat.protocol? id).isSome
    · exact .inl (hapart.class?_eq_none (.inl (protocol?_isSome_iff.mp hp)))
    · exact .inr (Option.not_isSome_iff_eq_none.mp hp)
  · by_cases he : (cat.enumeration? id).isSome
    · exact .inl (hapart.class?_eq_none (.inr (enumeration?_isSome_iff.mp he)))
    · exact .inr (Option.not_isSome_iff_eq_none.mp he)
  · by_cases he : (cat.enumeration? id).isSome
    · exact .inl (hapart.protocol?_eq_none (enumeration?_isSome_iff.mp he))
    · exact .inr (Option.not_isSome_iff_eq_none.mp he)

end Catalogue

end Pictograph
