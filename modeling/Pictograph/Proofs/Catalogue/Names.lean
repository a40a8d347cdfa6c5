import Pictograph.Proofs.Catalogue.Identities
import Pictograph.Proofs.Identity.Distinct

/-!
# Names in a catalogue

The analysis looks symbols up in the catalogue: names of types and of their namespaces, of members
and of values of enumerations. Any symbol may be declared as such a name, also one that is a mark of
the language.

## Main definitions

* `Catalogue.Finds`: something is found under a symbol.
* `Catalogue.declaredNames`: the symbols that the declared types use as names.

## Main results

* `Catalogue.Finds.mem_declaredNames`: what is found was declared.
-/

namespace Pictograph

namespace Catalogue

variable {cat : Catalogue} {symbol : Symbol}

/-- Something is found in a catalogue under a symbol. -/
inductive Finds (cat : Catalogue) (symbol : Symbol) : Prop
  /-- A type has this name. -/
  | type {space t} (h : cat.named? space symbol = some t)
  /-- A type is in this namespace. -/
  | space {name t} (h : cat.named? symbol name = some t)
  /-- A procedure has this name. -/
  | member {kind t m} (h : cat.member? kind t symbol = some m)
  /-- A value of an enumeration has this name. -/
  | value {t number} (h : cat.enumValue? t symbol = some number)

theorem Finds.method {t : Ty} {m : Member} (h : cat.method? t symbol = some m) :
    cat.Finds symbol := @Finds.member _ _ .method t m h

theorem Finds.classMethod {t : Ty} {m : Member} (h : cat.classMethod? t symbol = some m) :
    cat.Finds symbol := @Finds.member _ _ .classMethod t m h

theorem Finds.initializer {t : Ty} {m : Member} (h : cat.initializer? t symbol = some m) :
    cat.Finds symbol := @Finds.member _ _ .initializer t m h

/-- The symbols that the declared types use as names. -/
def declaredNames (cat : Catalogue) : List Symbol :=
  cat.latestClasses.flatMap (fun c ↦ c.space :: c.name :: c.allMembers.map (·.symbol))
    ++ cat.latestProtocols.flatMap (fun p ↦ p.space :: p.name :: p.methods.map (·.symbol))
    ++ cat.latestEnumerations.flatMap fun e ↦ e.space :: e.name :: e.values.map (·.name)

theorem mem_declaredNames_of_class {c : Class} (hc : c ∈ cat.latestClasses)
    (h : symbol ∈ c.space :: c.name :: c.allMembers.map (·.symbol)) : symbol ∈ cat.declaredNames :=
  List.mem_append_left _ (List.mem_append_left _ (List.mem_flatMap.mpr ⟨c, hc, h⟩))

theorem mem_declaredNames_of_protocol {p : Protocol} (hp : p ∈ cat.latestProtocols)
    (h : symbol ∈ p.space :: p.name :: p.methods.map (·.symbol)) : symbol ∈ cat.declaredNames :=
  List.mem_append_left _ (List.mem_append_right _ (List.mem_flatMap.mpr ⟨p, hp, h⟩))

theorem mem_declaredNames_of_enumeration {e : Enumeration} (he : e ∈ cat.latestEnumerations)
    (h : symbol ∈ e.space :: e.name :: e.values.map (·.name)) : symbol ∈ cat.declaredNames :=
  List.mem_append_right _ (List.mem_flatMap.mpr ⟨e, he, h⟩)

/-- A name that stands for a type is that of a declared type, and so is the namespace. -/
theorem mem_declaredNames_of_named? {space : Symbol} {t : Ty} (hcat : cat.Consistent)
    (h : cat.named? space symbol = some t) :
    space ∈ cat.declaredNames ∧ symbol ∈ cat.declaredNames := by
  rw [named?] at h
  by_cases hclass : (cat.class? (.of space symbol)).isSome
  · obtain ⟨c, hc⟩ := Option.isSome_iff_exists.mp hclass
    have hmem := mem_of_class? hc
    obtain ⟨rfl, rfl⟩ :=
      TypeId.names_eq_of_of_eq ((id_of_class? hc).symm.trans (hcat.classId c hmem))
    exact ⟨mem_declaredNames_of_class hmem List.mem_cons_self,
      mem_declaredNames_of_class hmem (List.mem_cons_of_mem _ List.mem_cons_self)⟩
  rw [if_neg hclass] at h
  by_cases hprotocol : (cat.protocol? (.of space symbol)).isSome
  · obtain ⟨p, hp⟩ := Option.isSome_iff_exists.mp hprotocol
    have hmem := mem_of_protocol? hp
    obtain ⟨rfl, rfl⟩ :=
      TypeId.names_eq_of_of_eq ((id_of_protocol? hp).symm.trans (hcat.protocolId p hmem))
    exact ⟨mem_declaredNames_of_protocol hmem List.mem_cons_self,
      mem_declaredNames_of_protocol hmem (List.mem_cons_of_mem _ List.mem_cons_self)⟩
  rw [if_neg hprotocol] at h
  by_cases henumeration : (cat.enumeration? (.of space symbol)).isSome
  · obtain ⟨e, he⟩ := Option.isSome_iff_exists.mp henumeration
    have hmem : e ∈ cat.latestEnumerations := List.mem_of_find?_eq_some he
    obtain ⟨rfl, rfl⟩ := TypeId.names_eq_of_of_eq (id_of_enumeration? he).symm
    exact ⟨mem_declaredNames_of_enumeration hmem List.mem_cons_self,
      mem_declaredNames_of_enumeration hmem (List.mem_cons_of_mem _ List.mem_cons_self)⟩
  rw [if_neg henumeration] at h
  cases h

/-! ## Members -/

theorem symbol_of_own? {c : Class} {kind : Procedure.Kind} {m : Member}
    (h : c.own? kind symbol = some m) : m.symbol = symbol := by
  have hfound := List.find?_some h
  exact beq_iff_eq.mp hfound

theorem symbol_of_nearest? {kind : Procedure.Kind} {id : TypeId} {m : Member}
    (h : cat.nearest? kind id symbol = some m) : m.symbol = symbol := by
  obtain ⟨c, -, hm⟩ := List.exists_of_findSome?_eq_some h
  exact symbol_of_own? hm

/-- What is found under a symbol is called so. -/
theorem symbol_of_member? {kind : Procedure.Kind} {t : Ty} {m : Member}
    (h : cat.member? kind t symbol = some m) : m.symbol = symbol := by
  match kind, h with
  | .method, h =>
    rw [member?, method?] at h
    split at h
    · exact symbol_of_nearest? h
    · obtain ⟨p, -, hm⟩ := Option.bind_eq_some_iff.mp h
      have hfound := List.find?_some hm
      exact beq_iff_eq.mp hfound
    · cases h
  | .classMethod, h =>
    obtain ⟨id, -, h⟩ := Option.bind_eq_some_iff.mp h
    exact symbol_of_nearest? h
  | .initializer, h =>
    rw [member?, initializer?] at h
    split at h
    · obtain hown | ⟨-, hfind⟩ := Option.or_eq_some_iff.mp h
      · exact symbol_of_own? hown
      · obtain ⟨d, -, hown⟩ := List.mem_filterMap.mp (List.mem_of_find?_eq_some hfind)
        exact symbol_of_own? hown
    · cases h

/-! ## What is found was declared -/

/-- **What is found was declared.** -/
theorem Finds.mem_declaredNames (h : cat.Finds symbol) (hcat : cat.Consistent) :
    symbol ∈ cat.declaredNames := by
  cases h with
  | type h => exact (mem_declaredNames_of_named? hcat h).2
  | space h => exact (mem_declaredNames_of_named? hcat h).1
  | member h =>
    rw [← symbol_of_member? h]
    cases offers_of_member? h with
    | inherited hid hd hm =>
      exact mem_declaredNames_of_class (mem_of_mem_lineage hd)
        (List.mem_cons_of_mem _ (List.mem_cons_of_mem _ (List.mem_map_of_mem hm)))
    | ofProtocol hid hp hm =>
      exact mem_declaredNames_of_protocol (mem_of_protocol? hp)
        (List.mem_cons_of_mem _ (List.mem_cons_of_mem _ (List.mem_map_of_mem hm)))
  | value h =>
    rw [enumValue?] at h
    split at h
    · obtain ⟨e, he, h⟩ := Option.bind_eq_some_iff.mp h
      obtain ⟨v, hv, -⟩ := Option.map_eq_some_iff.mp h
      have hname := List.find?_some hv
      rw [← beq_iff_eq.mp hname]
      exact mem_declaredNames_of_enumeration (List.mem_of_find?_eq_some he) (List.mem_cons_of_mem _
        (List.mem_cons_of_mem _ (List.mem_map_of_mem (List.mem_of_find?_eq_some hv))))
    · cases h

end Catalogue

end Pictograph
