import Pictograph.Proofs.Catalogue.Conservation

/-!
# Which standard types there are

The standard types are registered one after the other, and one that is refused is passed over
without a word. Where the name of a standard type is taken this is intended: the type that has the
name stays. But names are not all that matters. Lists conform to the enumerable protocol, so they
are refused if there is no such protocol, and there is none if a class or an enumeration has its
name. In that case, and in no other, a standard type is missing although its name is free.

What was passed over once is passed over again. So it makes no difference how often the standard
types are registered.

## Main definitions

* `Declaration.IsPlain`: a declaration that only its name and its protocols can stand in the way of.
* `Declaration.protocols`: the protocols that have to be registered before a declaration.

## Main results

* `Catalogue.contains_addIfPossible_iff`: when the type of a plain declaration is there afterwards.
* `Catalogue.Reachable.keeps_addIfPossible_of_ne`: all other types are kept.
* `Catalogue.Reachable.addStandard_available`: the catalogue after the standard types are
  registered.
* `Catalogue.addStandard_without_lists`: a catalogue in which lists stay missing.
-/

namespace Pictograph

/-! ## Plain declarations -/

/-- The protocols that have to be registered before a declaration. -/
def Declaration.protocols : Declaration → List TypeId
  | ofClass d => d.protocols
  | ofProtocol _ | ofEnumeration _ => []

/-- A declaration that only its name and its protocols can stand in the way of: it names no
superclass, and no name occurs twice in it. -/
def Declaration.IsPlain : Declaration → Prop
  | ofClass d => d.superclass? = none ∧ ∀ kind, ((d.procedures kind).map (·.symbol)).Nodup
  | ofProtocol d => (d.methods.map (·.symbol)).Nodup
  | ofEnumeration e => (e.values.map (·.name)).Nodup

/-- The declarations of the standard types are plain. -/
theorem Standard.isPlain {d : Declaration} (h : d ∈ declarations) : d.IsPlain := by
  simp only [declarations, List.mem_cons, List.not_mem_nil, or_false] at h
  rcases h with rfl | rfl | rfl | rfl
  · exact List.nodup_nil
  all_goals
    refine ⟨rfl, ?_⟩
    rintro (_ | _ | _) <;> decide

/-- Every standard type has a name of its own. The only protocol that any of them conforms to is the
enumerable one, which is declared in front of all others. -/
theorem Standard.exists_split {d : Declaration} (h : d ∈ declarations) :
    ∃ before after, declarations = before ++ d :: after
      ∧ (∀ d' ∈ before ++ after, d'.typeId ≠ d.typeId)
      ∧ ∀ p ∈ d.protocols, p = TypeId.enumerable
        ∧ ∃ rest, before = .ofProtocol enumerable :: rest := by
  simp only [declarations, List.mem_cons, List.not_mem_nil, or_false] at h
  rcases h with rfl | rfl | rfl | rfl
  · exact ⟨[], _, rfl, by decide +kernel, nofun⟩
  · exact ⟨[_], _, rfl, by decide +kernel, nofun⟩
  · exact ⟨[_, _], _, rfl, by decide +kernel,
      List.forall_mem_singleton.mpr ⟨rfl, _, rfl⟩⟩
  · exact ⟨[_, _, _], [], rfl, by decide +kernel, nofun⟩

namespace Catalogue

variable {cat cat' : Catalogue} {d : Declaration} {id : TypeId}

/-- A plain declaration is accepted just if its name is free and its protocols are registered. -/
theorem exists_add_ok_iff (hd : d.IsPlain) :
    (∃ cat', cat.add d = .ok cat')
      ↔ cat.contains d.typeId = false ∧ ∀ p ∈ d.protocols, (cat.protocol? p).isSome := by
  cases d with
  | ofClass d =>
    obtain ⟨hroot, hdistinct⟩ := hd
    constructor
    · rintro ⟨cat', hadd⟩
      obtain ⟨hadmits, -⟩ := addClass_ok_iff.mp hadd
      exact ⟨hadmits.free, hadmits.protocols⟩
    · rintro ⟨hfree, hprotocols⟩
      have hsuper : ∀ parent, d.superclass? = some parent → (cat.class? parent).isSome := by
        intro parent hparent
        rw [hroot] at hparent
        cases hparent
      exact ⟨_, addClass_ok_iff.mpr ⟨⟨hfree, hsuper, hprotocols, hdistinct⟩, rfl⟩⟩
  | ofProtocol d =>
    constructor
    · rintro ⟨cat', hadd⟩
      exact ⟨contains_eq_false_of_add hadd, nofun⟩
    · rintro ⟨hfree, -⟩
      refine ⟨{ cat with latestProtocols := cat.protocolEntry d :: cat.latestProtocols }, ?_⟩
      refine bind_ok.mpr ⟨(), requireFree_ok.mpr hfree, ?_⟩
      exact bind_ok.mpr ⟨(), requireDistinct_ok.mpr hd, rfl⟩
  | ofEnumeration e =>
    constructor
    · rintro ⟨cat', hadd⟩
      exact ⟨contains_eq_false_of_add hadd, nofun⟩
    · rintro ⟨hfree, -⟩
      refine ⟨{ cat with latestEnumerations := e :: cat.latestEnumerations }, ?_⟩
      refine bind_ok.mpr ⟨(), requireFree_ok.mpr hfree, ?_⟩
      exact bind_ok.mpr ⟨(), requireDistinct_ok.mpr hd, rfl⟩

/-! ## Registering what can be registered -/

/-- What is registered is there afterwards. -/
theorem contains_of_add (h : cat.add d = .ok cat') : cat'.contains d.typeId := by
  rw [contains_iff, mem_ids_iff]
  cases registers_of_add h with
  | ofClass => exact .inl List.mem_cons_self
  | ofProtocol => exact .inr (.inl List.mem_cons_self)
  | ofEnumeration => exact .inr (.inr List.mem_cons_self)

theorem addIfPossible_of_contains (h : cat.contains d.typeId) : cat.addIfPossible d = cat :=
  if_pos h

theorem addIfPossible_of_ok (h : cat.add d = .ok cat') : cat.addIfPossible d = cat' := by
  rw [addIfPossible, contains_eq_false_of_add h, if_neg Bool.false_ne_true, h]

/-- A declaration is passed over while a protocol is missing. -/
theorem addIfPossible_of_missing {p : TypeId} (hd : d.IsPlain) (hp : p ∈ d.protocols)
    (hmissing : cat.protocol? p = none) : cat.addIfPossible d = cat := by
  by_cases htaken : cat.contains d.typeId
  · exact addIfPossible_of_contains htaken
  · rw [addIfPossible, if_neg htaken]
    cases hadd : cat.add d with
    | error e => rfl
    | ok cat' =>
      have hprotocols := ((exists_add_ok_iff hd).mp ⟨cat', hadd⟩).2 p hp
      rw [hmissing] at hprotocols
      cases hprotocols

/-- **What is there afterwards.** The name of a plain declaration is taken afterwards just if it was
taken before, or the protocols are registered. -/
theorem contains_addIfPossible_iff (hd : d.IsPlain) :
    (cat.addIfPossible d).contains d.typeId
      ↔ cat.contains d.typeId ∨ ∀ p ∈ d.protocols, (cat.protocol? p).isSome := by
  by_cases htaken : cat.contains d.typeId
  · rw [addIfPossible_of_contains htaken]
    exact iff_of_true htaken (.inl htaken)
  · constructor
    · intro hthere
      right
      by_contra hmissing
      push Not at hmissing
      obtain ⟨p, hp, hnone⟩ := hmissing
      have hsame := addIfPossible_of_missing hd hp (Option.not_isSome_iff_eq_none.mp hnone)
      exact htaken (hsame ▸ hthere)
    · intro h
      have hprotocols := h.resolve_left htaken
      have hfree : cat.contains d.typeId = false := Bool.not_eq_true _ ▸ htaken
      obtain ⟨cat', hadd⟩ := (exists_add_ok_iff hd).mpr ⟨hfree, hprotocols⟩
      rw [addIfPossible_of_ok hadd]
      exact contains_of_add hadd

/-- All other identities are kept, whether they are taken or not. -/
theorem Reachable.keeps_addIfPossible_of_ne (h : cat.Reachable) (hne : d.typeId ≠ id) :
    cat.Keeps (cat.addIfPossible d) id := by
  rw [Catalogue.addIfPossible]
  split
  · exact .refl cat id
  · split
    · next hadd =>
      apply Keeps.of_lineage h (h.add hadd)
      · exact lineage_of_add hadd hne
      · exact protocol?_of_add hadd hne
      · exact enumeration?_of_add hadd hne
    · exact .refl cat id

/-- **Which names become protocols.** The name of a plain protocol is that of a protocol afterwards
just if no class and no enumeration has it. -/
theorem Consistent.protocol?_addIfPossible_isSome_iff {d : ProtocolDeclaration}
    (h : cat.Consistent) (hd : (Declaration.ofProtocol d).IsPlain) :
    ((cat.addIfPossible (.ofProtocol d)).protocol? d.typeId).isSome
      ↔ cat.class? d.typeId = none ∧ cat.enumeration? d.typeId = none := by
  by_cases htaken : cat.contains d.typeId
  · rw [addIfPossible_of_contains htaken]
    constructor
    · intro hprotocol
      have hmem := protocol?_isSome_iff.mp hprotocol
      refine ⟨h.class?_eq_none (.inl hmem), ?_⟩
      by_contra henumeration
      have hsome := Option.isSome_iff_ne_none.mpr henumeration
      rw [h.protocol?_eq_none (enumeration?_isSome_iff.mp hsome)] at hprotocol
      cases hprotocol
    · rintro ⟨hclass, henumeration⟩
      rw [contains, hclass, henumeration] at htaken
      simpa using htaken
  · have hfree : cat.contains d.typeId = false := Bool.not_eq_true _ ▸ htaken
    obtain ⟨cat', hadd⟩ := (exists_add_ok_iff hd).mpr ⟨hfree, List.forall_mem_nil _⟩
    rw [addIfPossible_of_ok hadd]
    cases registers_of_add hadd
    have hnew : d.typeId ∈ (cat.protocolEntry d :: cat.latestProtocols).map (·.id) :=
      List.mem_cons_self
    refine iff_of_true (protocol?_isSome_iff.mpr hnew) ?_
    rw [contains, Bool.or_eq_false_iff, Bool.or_eq_false_iff] at hfree
    simpa using And.intro hfree.1.1 hfree.2

/-! ## Registering a list of declarations -/

section

variable {before after ds : List Declaration}

/-- Nothing changes if each declaration by itself changes nothing. -/
theorem foldl_addIfPossible_eq_self (h : ∀ d ∈ ds, cat.addIfPossible d = cat) :
    ds.foldl addIfPossible cat = cat := by
  induction ds with
  | nil => rfl
  | cons d ds ih =>
    rw [List.forall_mem_cons] at h
    rw [List.foldl_cons, h.1]
    exact ih h.2

namespace Reachable

/-- Identities that are not declared are kept. -/
theorem keeps_foldl_of_ne (h : cat.Reachable) (hne : ∀ d ∈ ds, d.typeId ≠ id) :
    cat.Keeps (ds.foldl Catalogue.addIfPossible cat) id := by
  induction ds generalizing cat with
  | nil => exact .refl cat id
  | cons d ds ih =>
    rw [List.forall_mem_cons] at hne
    exact (h.keeps_addIfPossible_of_ne hne.1).trans (ih (h.addIfPossible d) hne.2)

/-- **One declaration among others.** The others declare other names, and those of the protocols are
taken before it is its turn. Then its name is taken in the end just if it was taken at the beginning
or the names of the protocols are those of protocols in the end. -/
theorem contains_foldl_iff (h : cat.Reachable) (hd : d.IsPlain)
    (hne : ∀ d' ∈ before ++ after, d'.typeId ≠ d.typeId)
    (hprotocols : ∀ p ∈ d.protocols, (before.foldl Catalogue.addIfPossible cat).contains p) :
    ((before ++ d :: after).foldl Catalogue.addIfPossible cat).contains d.typeId
      ↔ cat.contains d.typeId ∨ ∀ p ∈ d.protocols,
        (((before ++ d :: after).foldl Catalogue.addIfPossible cat).protocol? p).isSome := by
  have hbefore := h.foldl_addIfPossible before
  have hturn := hbefore.addIfPossible d
  rw [List.forall_mem_append] at hne
  rw [List.foldl_append, List.foldl_cons, (hturn.keeps_foldl_of_ne hne.2).contains,
    contains_addIfPossible_iff hd, (h.keeps_foldl_of_ne hne.1).contains]
  refine or_congr_right (forall₂_congr fun p hp ↦ ?_)
  have hkeeps := hbefore.keeps_foldl (hprotocols p hp) (d :: after)
  rw [← hkeeps.protocol?, List.foldl_cons]

end Reachable

end

/-! ## The standard types -/

namespace Reachable

variable (h : cat.Reachable)

include h

/-- The names of the protocols of a standard type are taken before it is its turn. -/
theorem contains_enumerable_foldl (ds : List Declaration) :
    ((Declaration.ofProtocol Standard.enumerable :: ds).foldl Catalogue.addIfPossible cat).contains
      TypeId.enumerable := by
  have hthere : (cat.addIfPossible (.ofProtocol Standard.enumerable)).contains TypeId.enumerable :=
    (contains_addIfPossible_iff (Standard.isPlain (.head _))).mpr (.inr nofun)
  exact ((h.addIfPossible _).keeps_foldl hthere ds).contains.trans hthere

/-- A standard type, or another one with its name, is there afterwards just if its name was taken
before or the protocols that it conforms to are there afterwards. -/
theorem contains_addStandard_iff (hd : d ∈ Standard.declarations) :
    cat.addStandard.contains d.typeId
      ↔ cat.contains d.typeId ∨ ∀ p ∈ d.protocols, (cat.addStandard.protocol? p).isSome := by
  obtain ⟨before, after, hsplit, hne, hprotocols⟩ := Standard.exists_split hd
  rw [Catalogue.addStandard, hsplit]
  refine h.contains_foldl_iff (Standard.isPlain hd) hne fun p hp ↦ ?_
  obtain ⟨rfl, rest, rfl⟩ := hprotocols p hp
  exact h.contains_enumerable_foldl rest

/-- Registering a standard type once more changes nothing. -/
theorem addIfPossible_addStandard (hd : d ∈ Standard.declarations) :
    cat.addStandard.addIfPossible d = cat.addStandard := by
  by_cases hthere : cat.addStandard.contains d.typeId
  · exact addIfPossible_of_contains hthere
  · -- it was passed over for want of a protocol, which is still missing
    rw [h.contains_addStandard_iff hd] at hthere
    push Not at hthere
    obtain ⟨-, p, hp, hmissing⟩ := hthere
    exact addIfPossible_of_missing (Standard.isPlain hd) hp
      (Option.not_isSome_iff_eq_none.mp hmissing)

/-- The enumerable protocol is there afterwards just if nothing else has its name. -/
theorem protocol?_addStandard_isSome_iff :
    (cat.addStandard.protocol? TypeId.enumerable).isSome
      ↔ cat.class? TypeId.enumerable = none ∧ cat.enumeration? TypeId.enumerable = none := by
  have hthere : (cat.addIfPossible (.ofProtocol Standard.enumerable)).contains TypeId.enumerable :=
    h.contains_enumerable_foldl []
  have hkeeps : (cat.addIfPossible (.ofProtocol Standard.enumerable)).Keeps cat.addStandard
      TypeId.enumerable := (h.addIfPossible _).keeps_foldl hthere _
  rw [hkeeps.protocol?]
  exact h.consistent.protocol?_addIfPossible_isSome_iff List.nodup_nil

/-- **The standard types after their registration.** In a catalogue that registrations lead to,

* every type that was registered before is kept;
* the enumerable protocol, strings and dictionaries are there afterwards, or what had their names;
* lists are there afterwards, or what had their name, just if their name was taken before or no
  class and no enumeration has the name of the enumerable protocol;
* registering the standard types again changes nothing. -/
theorem addStandard_available :
    (∀ id, cat.contains id → cat.Keeps cat.addStandard id)
    ∧ cat.addStandard.contains TypeId.enumerable ∧ cat.addStandard.contains TypeId.string
    ∧ cat.addStandard.contains TypeId.dictionary
    ∧ (cat.addStandard.contains TypeId.list ↔ cat.contains TypeId.list
        ∨ cat.class? TypeId.enumerable = none ∧ cat.enumeration? TypeId.enumerable = none)
    ∧ cat.addStandard.addStandard = cat.addStandard := by
  refine ⟨fun id hid ↦ h.keeps_addStandard hid, ?enumerable, ?string, ?dictionary, ?list, ?again⟩
  case enumerable => exact (h.contains_addStandard_iff (.head _)).mpr (.inr nofun)
  case string => exact (h.contains_addStandard_iff (.tail _ (.head _))).mpr (.inr nofun)
  case dictionary =>
    exact (h.contains_addStandard_iff (.tail _ (.tail _ (.tail _ (.head _))))).mpr (.inr nofun)
  case list =>
    have hlist := h.contains_addStandard_iff (.tail _ (.tail _ (.head _)))
    rw [← h.protocol?_addStandard_isSome_iff]
    exact hlist.trans (or_congr_right List.forall_mem_singleton)
  case again => exact foldl_addIfPossible_eq_self fun d hd ↦ h.addIfPossible_addStandard hd

end Reachable

end Catalogue

/-! ## Names that are taken -/

namespace Sample

/-- A protocol with the name of dictionaries. -/
def lexicon : ProtocolDeclaration where
  space := Vocabulary.defaultNamespace
  name := Vocabulary.dictionaryClass

/-- An enumeration with the name of the enumerable protocol. -/
def rounds : Enumeration where
  space := Vocabulary.defaultNamespace
  name := Vocabulary.enumerableProtocol

end Sample

/-- A protocol that has the name of dictionaries keeps it, and all other standard types are
there. -/
theorem Catalogue.Reachable.addStandard_available_lexicon :
    let cat := Catalogue.empty.addIfPossible (.ofProtocol Sample.lexicon)
    cat.Reachable ∧ cat.contains TypeId.dictionary
      ∧ cat.addStandard.protocol? TypeId.dictionary = cat.protocol? TypeId.dictionary
      ∧ cat.addStandard.contains TypeId.enumerable ∧ cat.addStandard.contains TypeId.string
      ∧ cat.addStandard.contains TypeId.list ∧ cat.addStandard.addStandard = cat.addStandard := by
  intro cat
  have h : cat.Reachable := Reachable.empty.addIfPossible _
  have htaken : cat.contains TypeId.dictionary := by decide +kernel
  have hfree : cat.class? TypeId.enumerable = none ∧ cat.enumeration? TypeId.enumerable = none := by
    decide +kernel
  obtain ⟨hkeeps, henumerable, hstring, -, hlist, hagain⟩ := h.addStandard_available
  exact ⟨h, htaken, (hkeeps _ htaken).protocol?, henumerable, hstring, hlist.mpr (.inr hfree),
    hagain⟩

/-- **Lists may stay missing.** The name of lists is free, but an enumeration has the name of the
enumerable protocol. Then there is nothing under the name of lists after the standard types are
registered. -/
theorem Catalogue.addStandard_without_lists :
    let cat := Catalogue.empty.addIfPossible (.ofEnumeration Sample.rounds)
    cat.Reachable ∧ cat.contains TypeId.list = false
      ∧ cat.addStandard.contains TypeId.list = false := by
  intro cat
  exact ⟨Reachable.empty.addIfPossible _, by decide +kernel, by decide +kernel⟩

end Pictograph
