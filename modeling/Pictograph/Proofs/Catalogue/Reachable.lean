import Mathlib.Data.List.Infix
import Mathlib.Data.List.Nodup
import Pictograph.Catalogue.Standard

/-!
# Catalogues that registrations lead to

The catalogues of programs are those that registrations lead to from the empty one, in whatever
order types are declared and however many declarations are refused on the way. A class that is
registered stands in front of all classes registered before it, among them its superclass, and its
identity is new. So the lineage of a class goes down the list, and the lineage of an ancestor is a
final part of it.

## Main definitions

* `Catalogue.Admits`: what a class declaration is checked for.
* `Catalogue.entry`: the class that an admitted declaration is registered as.
* `Catalogue.Registers`: what registering a type does.
* `Catalogue.Reachable`: the catalogues that registrations lead to.

## Main results

* `Catalogue.addClass_ok_iff`: what registering a class does, and when it is refused.
* `Catalogue.Reachable.lineage_suffix`: ancestors have the same ancestors wherever they stand.
* `Catalogue.Reachable.descends_trans`, `Catalogue.Reachable.descends_antisymm`: inheritance is an
  order.
-/

namespace Pictograph

/-- The size of the dispatch table of one sort. -/
def TableSizes.size (t : TableSizes) : Procedure.Kind → Nat
  | .method => t.methods
  | .classMethod => t.classMethods
  | .initializer => t.initializers

/-- The procedures of one sort that a class declares. -/
def ClassDeclaration.procedures (d : ClassDeclaration) : Procedure.Kind → List Procedure
  | .method => d.methods
  | .classMethod => d.classMethods
  | .initializer => d.initializers

namespace Catalogue

/-! ## Registering a class -/

/-- What a class declaration is checked for. -/
structure Admits (cat : Catalogue) (d : ClassDeclaration) : Prop where
  /-- The name is free. -/
  free : cat.contains d.typeId = false
  /-- The superclass is registered. -/
  superclass : ∀ parent, d.superclass? = some parent → (cat.class? parent).isSome
  /-- The protocols are registered. -/
  protocols : ∀ p ∈ d.protocols, (cat.protocol? p).isSome
  /-- No two procedures of one sort have one name. -/
  distinct : ∀ kind, ((d.procedures kind).map (·.symbol)).Nodup

/-- The member that a procedure of a class overrides. -/
def overridden? (cat : Catalogue) (d : ClassDeclaration) (kind : Procedure.Kind)
    (symbol : Symbol) : Option Member :=
  d.superclass?.bind (cat.nearest? kind · symbol)

/-- The sizes of the dispatch tables that a class inherits. -/
def inheritedSizes (cat : Catalogue) (d : ClassDeclaration) : TableSizes :=
  ((d.superclass?.bind cat.class?).map (·.tables)).getD {}

/-- The members of one sort of a class, and the size of its dispatch table. -/
def numbered (cat : Catalogue) (d : ClassDeclaration) (kind : Procedure.Kind) :
    List Member × Nat :=
  number (cat.overridden? d kind) kind d.typeId ((cat.inheritedSizes d).size kind)
    (d.procedures kind)

/-- The class that a declaration is registered as. -/
def entry (cat : Catalogue) (d : ClassDeclaration) : Class := { d.toClassHead with
  id := d.typeId
  index := cat.latestClasses.length
  methods := (cat.numbered d .method).1
  classMethods := (cat.numbered d .classMethod).1
  initializers := (cat.numbered d .initializer).1
  tables := ⟨(cat.numbered d .method).2, (cat.numbered d .classMethod).2,
    (cat.numbered d .initializer).2⟩ }

theorem id_entry (cat : Catalogue) (d : ClassDeclaration) : (cat.entry d).id = d.typeId := rfl

theorem members_entry (cat : Catalogue) (d : ClassDeclaration) (kind : Procedure.Kind) :
    (cat.entry d).members kind = (cat.numbered d kind).1 := by
  cases kind <;> rfl

theorem size_tables_entry (cat : Catalogue) (d : ClassDeclaration) (kind : Procedure.Kind) :
    (cat.entry d).tables.size kind = (cat.numbered d kind).2 := by
  cases kind <;> rfl

/-- The catalogue with one more class. -/
def withClass (cat : Catalogue) (c : Class) : Catalogue :=
  { cat with latestClasses := c :: cat.latestClasses }

section

variable {cat cat' : Catalogue} {α β : Type}

theorem bind_ok {ε : Type} {x : Except ε α} {f : α → Except ε β} {b : β} :
    x >>= f = .ok b ↔ ∃ a, x = .ok a ∧ f a = .ok b := by
  cases x with
  | error e =>
    constructor
    · rintro ⟨⟩
    · rintro ⟨_, ⟨⟩, _⟩
  | ok a =>
    constructor
    · exact fun h ↦ ⟨a, rfl, h⟩
    · rintro ⟨_, ⟨⟩, h⟩
      exact h

@[simp]
theorem throw_ne_ok {e : RegistrationError} {a : α} :
    (throw e : Except RegistrationError α) ≠ .ok a :=
  nofun

@[simp]
theorem pure_eq_ok {a a' : α} : (pure a : Except RegistrationError α) = .ok a' ↔ a = a' :=
  ⟨Except.ok.inj, congrArg Except.ok⟩

theorem firstRepeated_eq_none_iff {seen l : List Symbol} :
    firstRepeated seen l = none ↔ l.Nodup ∧ ∀ s ∈ l, s ∉ seen := by
  induction l generalizing seen with
  | nil => simp [firstRepeated]
  | cons s l ih =>
    rw [firstRepeated]
    split
    · next hs => simp [hs]
    · next hs =>
      rw [ih, List.nodup_cons]
      simp only [List.mem_cons, not_or, forall_eq_or_imp]
      grind

theorem requireDistinct_ok {name : Symbol} {names : List Symbol} {u : Unit} :
    requireDistinct name names = .ok u ↔ names.Nodup := by
  have hnone : firstRepeated [] names = none ↔ names.Nodup ∧ ∀ s ∈ names, s ∉ ([] : List Symbol) :=
    firstRepeated_eq_none_iff
  simp only [List.not_mem_nil, not_false_eq_true, implies_true, and_true] at hnone
  rw [← hnone, requireDistinct]
  split
  · next hs => simp [hs]
  · next hs => simp [hs]

theorem requireFree_ok {id : TypeId} {name : Symbol} {u : Unit} :
    cat.requireFree id name = .ok u ↔ cat.contains id = false := by
  rw [requireFree]
  split
  · next hc => simp [hc]
  · next hc => simp [hc]

theorem requireProtocols_ok {name : Symbol} {ids : List TypeId} {u : Unit} :
    cat.requireProtocols name ids = .ok u ↔ ∀ id ∈ ids, (cat.protocol? id).isSome := by
  induction ids with
  | nil => simp [requireProtocols]
  | cons id ids ih =>
    rw [requireProtocols, List.forall_mem_cons]
    split
    · next hid => simp only [ih, hid, true_and]
    · next hid => simp [hid]

end

/-- What is left to do when the superclass is known. -/
theorem addClass_of_superclass {cat : Catalogue} {d : ClassDeclaration}
    (h : ∀ parent, d.superclass? = some parent → (cat.class? parent).isSome) :
    cat.addClass d = (do
      cat.requireFree d.typeId d.name
      cat.requireProtocols d.name d.protocols
      requireDistinct d.name (d.methods.map (·.symbol))
      requireDistinct d.name (d.classMethods.map (·.symbol))
      requireDistinct d.name (d.initializers.map (·.symbol))
      return cat.withClass (cat.entry d)) := by
  have hov (kind : Procedure.Kind) : cat.overridden? d kind
      = fun symbol ↦ d.superclass?.bind (cat.nearest? kind · symbol) := rfl
  unfold addClass entry numbered
  simp only [hov, inheritedSizes]
  cases hs : d.superclass? with
  | none => rfl
  | some parent =>
    obtain ⟨c, hc⟩ := Option.isSome_iff_exists.mp (h parent hs)
    simp only [Option.bind_some, hc]
    rfl

/-- **Registering a class.** A declaration is accepted just if it passes the checks, and then its
entry is put in front of all classes. -/
theorem addClass_ok_iff {cat cat' : Catalogue} {d : ClassDeclaration} :
    cat.addClass d = .ok cat' ↔ cat.Admits d ∧ cat' = cat.withClass (cat.entry d) := by
  have hknown (h : cat.addClass d = .ok cat') :
      ∀ parent, d.superclass? = some parent → (cat.class? parent).isSome := by
    intro parent hs
    by_contra hc
    rw [Option.not_isSome_iff_eq_none] at hc
    unfold addClass at h
    simp only [hs, hc] at h
    obtain ⟨_, -, h⟩ := bind_ok.mp h
    cases h
  constructor
  · intro h
    have hsuper := hknown h
    rw [addClass_of_superclass hsuper] at h
    obtain ⟨_, hfree, h⟩ := bind_ok.mp h
    obtain ⟨_, hprotocols, h⟩ := bind_ok.mp h
    obtain ⟨_, hmethods, h⟩ := bind_ok.mp h
    obtain ⟨_, hclassMethods, h⟩ := bind_ok.mp h
    obtain ⟨_, hinitializers, h⟩ := bind_ok.mp h
    refine ⟨⟨requireFree_ok.mp hfree, hsuper, requireProtocols_ok.mp hprotocols, ?_⟩, ?_⟩
    · rintro (_ | _ | _)
      · exact requireDistinct_ok.mp hmethods
      · exact requireDistinct_ok.mp hclassMethods
      · exact requireDistinct_ok.mp hinitializers
    · cases h
      rfl
  · rintro ⟨h, rfl⟩
    rw [addClass_of_superclass h.superclass]
    refine bind_ok.mpr ⟨(), requireFree_ok.mpr h.free, ?_⟩
    refine bind_ok.mpr ⟨(), requireProtocols_ok.mpr h.protocols, ?_⟩
    refine bind_ok.mpr ⟨(), requireDistinct_ok.mpr (h.distinct .method), ?_⟩
    refine bind_ok.mpr ⟨(), requireDistinct_ok.mpr (h.distinct .classMethod), ?_⟩
    exact bind_ok.mpr ⟨(), requireDistinct_ok.mpr (h.distinct .initializer), rfl⟩

/-! ## Registering any type -/

/-- The protocol that a declaration is registered as. -/
def protocolEntry (cat : Catalogue) (d : ProtocolDeclaration) : Protocol where
  space := d.space
  name := d.name
  id := d.typeId
  index := cat.latestProtocols.length
  methods := (number (fun _ ↦ none) .method d.typeId 0 d.methods).1

/-- What registering a type does, and what was checked before. -/
inductive Registers (cat : Catalogue) : Declaration → Catalogue → Prop
  | ofClass {d : ClassDeclaration} (hd : cat.Admits d) :
      Registers cat (.ofClass d) (cat.withClass (cat.entry d))
  | ofProtocol {d : ProtocolDeclaration} (hfree : cat.contains d.typeId = false) :
      Registers cat (.ofProtocol d)
        { cat with latestProtocols := cat.protocolEntry d :: cat.latestProtocols }
  | ofEnumeration {e : Enumeration} (hfree : cat.contains e.typeId = false) :
      Registers cat (.ofEnumeration e)
        { cat with latestEnumerations := e :: cat.latestEnumerations }

/-- **Registering a type** puts its entry in front of one table. -/
theorem registers_of_add {cat cat' : Catalogue} {d : Declaration} (h : cat.add d = .ok cat') :
    cat.Registers d cat' := by
  cases d with
  | ofClass c =>
    obtain ⟨hc, rfl⟩ := addClass_ok_iff.mp h
    exact .ofClass hc
  | ofProtocol p =>
    obtain ⟨_, hfree, h⟩ := bind_ok.mp h
    obtain ⟨_, -, h⟩ := bind_ok.mp h
    cases h
    exact .ofProtocol (requireFree_ok.mp hfree)
  | ofEnumeration e =>
    obtain ⟨_, hfree, h⟩ := bind_ok.mp h
    obtain ⟨_, -, h⟩ := bind_ok.mp h
    cases h
    exact .ofEnumeration (requireFree_ok.mp hfree)

/-- Registrations of other types leave the classes alone. -/
theorem latestClasses_of_add {cat cat' : Catalogue} {d : Declaration} (h : cat.add d = .ok cat') :
    cat'.latestClasses = cat.latestClasses ∨
      ∃ c, cat.Admits c ∧ cat' = cat.withClass (cat.entry c) := by
  cases registers_of_add h with
  | ofClass hc => exact .inr ⟨_, hc, rfl⟩
  | ofProtocol | ofEnumeration => exact .inl rfl

/-! ## Sequences of registrations -/

/-- The catalogues that registrations lead to. -/
inductive Reachable : Catalogue → Prop
  | empty : Reachable empty
  | add {cat cat' : Catalogue} {d : Declaration} (h : cat.Reachable) (hadd : cat.add d = .ok cat') :
      Reachable cat'

namespace Reachable

variable {cat : Catalogue}

theorem addIfPossible (h : cat.Reachable) (d : Declaration) : (cat.addIfPossible d).Reachable := by
  rw [Catalogue.addIfPossible]
  split
  · exact h
  · split
    · next hadd => exact h.add hadd
    · exact h

theorem foldl_addIfPossible (h : cat.Reachable) (ds : List Declaration) :
    (ds.foldl Catalogue.addIfPossible cat).Reachable := by
  induction ds generalizing cat with
  | nil => exact h
  | cons d ds ih => exact ih (h.addIfPossible d)

theorem addStandard (h : cat.Reachable) : cat.addStandard.Reachable :=
  h.foldl_addIfPossible Standard.declarations

theorem standard : Catalogue.standard.Reachable := Reachable.empty.addStandard

end Reachable

/-! ## Identities -/

theorem class?_isSome_iff {cat : Catalogue} {id : TypeId} :
    (cat.class? id).isSome ↔ id ∈ cat.latestClasses.map (·.id) := by
  rw [class?, List.find?_isSome, List.mem_map]
  simp only [beq_iff_eq]

theorem id_of_class? {cat : Catalogue} {id : TypeId} {c : Class} (h : cat.class? id = some c) :
    c.id = id := by
  have hid := List.find?_some h
  exact beq_iff_eq.mp hid

theorem class?_withClass (cat : Catalogue) (c : Class) (id : TypeId) :
    (cat.withClass c).class? id = if c.id = id then some c else cat.class? id := by
  rw [class?, withClass, List.find?_cons]
  split <;> simp_all [class?]

/-- An admitted class has a new identity. -/
theorem Admits.class?_eq_none {cat : Catalogue} {d : ClassDeclaration} (h : cat.Admits d) :
    cat.class? d.typeId = none := by
  have hfree := h.free
  rw [contains, Bool.or_eq_false_iff, Bool.or_eq_false_iff] at hfree
  rw [← Option.not_isSome_iff_eq_none, hfree.1.1]
  exact Bool.false_ne_true

/-- Distinct classes have distinct identities. -/
theorem Reachable.nodup {cat : Catalogue} (h : cat.Reachable) :
    (cat.latestClasses.map (·.id)).Nodup := by
  induction h with
  | empty => exact List.nodup_nil
  | add _ hadd ih =>
    obtain hsame | ⟨d, hd, rfl⟩ := latestClasses_of_add hadd
    · rwa [hsame]
    · rw [withClass, List.map_cons, List.nodup_cons]
      refine ⟨fun hmem ↦ ?_, ih⟩
      have hsome := class?_isSome_iff.mpr hmem
      rw [id_entry, hd.class?_eq_none] at hsome
      exact absurd hsome (by decide)

/-! ## Lineages -/

section

variable {l : List Class} {c x : Class} {id : TypeId}

theorem lineageIn_cons_self :
    lineageIn (c :: l) c.id = c :: c.superclass?.elim [] (lineageIn l) := by
  rw [lineageIn, if_pos rfl]
  cases c.superclass? <;> rfl

theorem lineageIn_cons_of_ne (h : c.id ≠ id) : lineageIn (c :: l) id = lineageIn l id := by
  rw [lineageIn, if_neg h]

theorem lineageIn_sublist (l : List Class) (id : TypeId) : (lineageIn l id).Sublist l := by
  induction l generalizing id with
  | nil => exact List.Sublist.refl []
  | cons c l ih =>
    by_cases hc : c.id = id
    · subst hc
      rw [lineageIn_cons_self]
      cases c.superclass? with
      | none => exact (List.nil_sublist l).cons_cons c
      | some parent => exact (ih parent).cons_cons c
    · rw [lineageIn_cons_of_ne hc]
      exact (ih id).cons c

/-- A lineage starts with the class itself. -/
theorem head?_lineageIn (l : List Class) (id : TypeId) :
    (lineageIn l id).head? = l.find? (·.id == id) := by
  induction l with
  | nil => rfl
  | cons c l ih =>
    by_cases hc : c.id = id
    · subst hc
      rw [lineageIn_cons_self, List.find?_cons, beq_self_eq_true, List.head?_cons]
    · rw [lineageIn_cons_of_ne hc, ih, List.find?_cons_of_neg (by simpa using hc)]

/-- The lineage of a member of a lineage is the rest of it from there on. -/
theorem lineageIn_suffix (hl : (l.map (·.id)).Nodup) (hx : x ∈ lineageIn l id) :
    lineageIn l x.id <:+ lineageIn l id := by
  induction l generalizing id with
  | nil => exact absurd hx List.not_mem_nil
  | cons c l ih =>
    rw [List.map_cons, List.nodup_cons] at hl
    have hne {parent : TypeId} (h : x ∈ lineageIn l parent) : c.id ≠ x.id := fun heq ↦
      hl.1 (heq ▸ List.mem_map_of_mem ((lineageIn_sublist l parent).mem h))
    by_cases hc : c.id = id
    · subst hc
      rw [lineageIn_cons_self] at hx ⊢
      obtain rfl | hx := List.mem_cons.mp hx
      · rw [lineageIn_cons_self]
      · cases hs : c.superclass? with
        | none =>
          rw [hs] at hx
          exact absurd hx List.not_mem_nil
        | some parent =>
          rw [hs] at hx
          rw [lineageIn_cons_of_ne (hne hx)]
          exact (ih hl.2 hx).trans (List.suffix_cons c _)
    · rw [lineageIn_cons_of_ne hc] at hx ⊢
      rw [lineageIn_cons_of_ne (hne hx)]
      exact ih hl.2 hx

end

section

variable {cat : Catalogue} {a b id : TypeId}

theorem lineage_withClass_self (cat : Catalogue) (c : Class) :
    (cat.withClass c).lineage c.id = c :: c.superclass?.elim [] cat.lineage :=
  lineageIn_cons_self

theorem lineage_withClass_of_ne {c : Class} (h : c.id ≠ id) :
    (cat.withClass c).lineage id = cat.lineage id :=
  lineageIn_cons_of_ne h

theorem head?_lineage (cat : Catalogue) (id : TypeId) : (cat.lineage id).head? = cat.class? id :=
  head?_lineageIn _ id

theorem descends_iff : cat.descends id a ↔ ∃ c ∈ cat.lineage id, c.id = a := by
  simp only [descends, List.any_eq_true, beq_iff_eq]

/-- A registered class descends from itself. -/
theorem descends_refl (h : (cat.class? id).isSome) : cat.descends id id := by
  obtain ⟨c, hc⟩ := Option.isSome_iff_exists.mp h
  have hmem : c ∈ cat.lineage id := List.mem_of_head? ((head?_lineage cat id).trans hc)
  exact descends_iff.mpr ⟨c, hmem, id_of_class? hc⟩

theorem class?_isSome_of_descends (hd : cat.descends id a) : (cat.class? a).isSome := by
  obtain ⟨c, hc, rfl⟩ := descends_iff.mp hd
  exact class?_isSome_iff.mpr (List.mem_map_of_mem ((lineageIn_sublist _ id).mem hc))

namespace Reachable

/-- **Ancestors keep their ancestors.** The lineage of an ancestor is a final part of the lineage
of the class. -/
theorem lineage_suffix (h : cat.Reachable) (hd : cat.descends id a) :
    cat.lineage a <:+ cat.lineage id := by
  obtain ⟨c, hc, rfl⟩ := descends_iff.mp hd
  exact lineageIn_suffix h.nodup hc

theorem descends_trans (h : cat.Reachable) (hab : cat.descends id a) (hbc : cat.descends a b) :
    cat.descends id b := by
  obtain ⟨c, hc, rfl⟩ := descends_iff.mp hbc
  exact descends_iff.mpr ⟨c, (h.lineage_suffix hab).mem hc, rfl⟩

/-- Two classes that descend from each other are one. -/
theorem descends_antisymm (h : cat.Reachable) (hab : cat.descends a b) (hba : cat.descends b a) :
    a = b := by
  have heq : cat.lineage a = cat.lineage b :=
    (h.lineage_suffix hba).eq_of_length_le (h.lineage_suffix hab).length_le
  obtain ⟨c, hc⟩ := Option.isSome_iff_exists.mp (class?_isSome_of_descends hba)
  have hc' : cat.class? b = some c := by rw [← head?_lineage, ← heq, head?_lineage, hc]
  rw [← id_of_class? hc, id_of_class? hc']

/-- Classes conform to the protocols of their ancestors. -/
theorem conforms_of_descends {p : TypeId} (h : cat.Reachable) (hab : cat.descends a b)
    (hb : cat.conforms b p) : cat.conforms a p := by
  rw [conforms, List.any_eq_true] at hb ⊢
  obtain ⟨c, hc, hp⟩ := hb
  exact ⟨c, (h.lineage_suffix hab).mem hc, hp⟩

end Reachable

end

end Catalogue
end Pictograph
