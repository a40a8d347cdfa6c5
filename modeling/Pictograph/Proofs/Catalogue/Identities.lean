import Pictograph.Proofs.Catalogue.Reachable

/-!
# What identities say

The identity of a declared type is computed from its namespace and its name, and no two registered
types have the same one, whatever sort of type they are. So the qualified name of a registered type
denotes just that type, and the owner that a member carries tells the type that declares it.

## Main definitions

* `Catalogue.ids`: the identities of all registered types.
* `Catalogue.Consistent`: what registrations keep true of identities and owners.
* `Catalogue.Declares`: a registered type declares a member.

## Main results

* `Catalogue.Reachable.consistent`: registrations lead to consistent catalogues only.
* `Catalogue.Consistent.named?_of_class` and its companions for protocols and enumerations: a
  registered type is found by its qualified name.
-/

namespace Pictograph

namespace Catalogue

/-! ## Identities -/

/-- The identities of all registered types. -/
def ids (cat : Catalogue) : List TypeId :=
  cat.latestClasses.map (·.id) ++
    (cat.latestProtocols.map (·.id) ++ cat.latestEnumerations.map (·.typeId))

section

variable {cat cat' : Catalogue} {id : TypeId} {kind : Procedure.Kind}

theorem mem_ids_iff : id ∈ cat.ids ↔ id ∈ cat.latestClasses.map (·.id)
    ∨ id ∈ cat.latestProtocols.map (·.id) ∨ id ∈ cat.latestEnumerations.map (·.typeId) := by
  rw [ids, List.mem_append, List.mem_append]

theorem protocol?_isSome_iff : (cat.protocol? id).isSome ↔ id ∈ cat.latestProtocols.map (·.id) := by
  rw [protocol?, List.find?_isSome, List.mem_map]
  simp only [beq_iff_eq]

theorem enumeration?_isSome_iff :
    (cat.enumeration? id).isSome ↔ id ∈ cat.latestEnumerations.map (·.typeId) := by
  rw [enumeration?, List.find?_isSome, List.mem_map]
  simp only [beq_iff_eq]

theorem contains_iff : cat.contains id ↔ id ∈ cat.ids := by
  rw [contains, Bool.or_eq_true, Bool.or_eq_true, class?_isSome_iff, protocol?_isSome_iff,
    enumeration?_isSome_iff, or_assoc, mem_ids_iff]

theorem not_mem_ids (h : cat.contains id = false) : id ∉ cat.ids := by
  rw [← contains_iff, h]
  exact Bool.false_ne_true

/-- Members carry the owner they are numbered for. -/
theorem owner_of_mem_number {overridden? : Symbol → Option Member} {owner : TypeId} {next : Nat}
    {procedures : List Procedure} {m : Member}
    (h : m ∈ (number overridden? kind owner next procedures).1) : m.owner = owner := by
  induction procedures generalizing next with
  | nil => exact absurd h List.not_mem_nil
  | cons p rest ih =>
    rw [number] at h
    split at h
    all_goals
      obtain rfl | h := List.mem_cons.mp h
      · rfl
      · exact ih h

end

/-! ## Consistent catalogues -/

/-- What registrations keep true: no two types have one identity, identities are those of the names,
and members carry the identity of the type that declares them. -/
structure Consistent (cat : Catalogue) : Prop where
  nodup : cat.ids.Nodup
  classId : ∀ c ∈ cat.latestClasses, c.id = .of c.space c.name
  classOwner : ∀ c ∈ cat.latestClasses, ∀ kind, ∀ m ∈ c.members kind, m.owner = c.id
  protocolId : ∀ p ∈ cat.latestProtocols, p.id = .of p.space p.name
  protocolOwner : ∀ p ∈ cat.latestProtocols, ∀ m ∈ p.methods, m.owner = p.id

namespace Consistent

variable {cat : Catalogue}

theorem empty : Consistent .empty :=
  ⟨List.nodup_nil, nofun, nofun, nofun, nofun⟩

theorem withClass {d : ClassDeclaration} (h : cat.Consistent) (hd : cat.Admits d) :
    (cat.withClass (cat.entry d)).Consistent where
  nodup := List.nodup_cons.mpr ⟨not_mem_ids hd.free, h.nodup⟩
  classId := List.forall_mem_cons.mpr ⟨rfl, h.classId⟩
  classOwner := by
    refine List.forall_mem_cons.mpr ⟨fun kind m hm ↦ ?_, h.classOwner⟩
    rw [members_entry] at hm
    exact owner_of_mem_number hm
  protocolId := h.protocolId
  protocolOwner := h.protocolOwner

theorem withProtocol {d : ProtocolDeclaration} (h : cat.Consistent)
    (hfree : cat.contains d.typeId = false) :
    Consistent { cat with latestProtocols := cat.protocolEntry d :: cat.latestProtocols } where
  nodup := by
    have hnew : (d.typeId :: cat.ids).Nodup := List.nodup_cons.mpr ⟨not_mem_ids hfree, h.nodup⟩
    exact (List.perm_middle.nodup_iff).mpr hnew
  classId := h.classId
  classOwner := h.classOwner
  protocolId := List.forall_mem_cons.mpr ⟨rfl, h.protocolId⟩
  protocolOwner :=
    List.forall_mem_cons.mpr ⟨fun _ hm ↦ owner_of_mem_number hm, h.protocolOwner⟩

theorem withEnumeration {e : Enumeration} (h : cat.Consistent)
    (hfree : cat.contains e.typeId = false) :
    Consistent { cat with latestEnumerations := e :: cat.latestEnumerations } where
  nodup := by
    have hnew : (e.typeId :: cat.ids).Nodup := List.nodup_cons.mpr ⟨not_mem_ids hfree, h.nodup⟩
    rw [ids, ← List.append_assoc] at hnew ⊢
    exact (List.perm_middle.nodup_iff).mpr hnew
  classId := h.classId
  classOwner := h.classOwner
  protocolId := h.protocolId
  protocolOwner := h.protocolOwner

end Consistent

/-- Registrations lead to consistent catalogues only. -/
theorem Reachable.consistent {cat : Catalogue} (h : cat.Reachable) : cat.Consistent := by
  induction h with
  | empty => exact .empty
  | add _ hadd ih =>
    cases registers_of_add hadd with
    | ofClass hd => exact ih.withClass hd
    | ofProtocol hfree => exact ih.withProtocol hfree
    | ofEnumeration hfree => exact ih.withEnumeration hfree

/-! ## Qualified names -/

section

variable {cat : Catalogue} {id : TypeId} {c d : Class} {p : Protocol} {e : Enumeration}

theorem mem_of_class? (h : cat.class? id = some c) : c ∈ cat.latestClasses :=
  List.mem_of_find?_eq_some h

theorem mem_of_protocol? (h : cat.protocol? id = some p) : p ∈ cat.latestProtocols :=
  List.mem_of_find?_eq_some h

theorem id_of_protocol? (h : cat.protocol? id = some p) : p.id = id := by
  have hid := List.find?_some h
  exact beq_iff_eq.mp hid

theorem id_of_enumeration? (h : cat.enumeration? id = some e) : e.typeId = id := by
  have hid := List.find?_some h
  exact beq_iff_eq.mp hid

namespace Consistent

/-- A class is the only one with its identity. -/
theorem eq_of_id (h : cat.Consistent) (hc : c ∈ cat.latestClasses) (hd : d ∈ cat.latestClasses)
    (hid : c.id = d.id) : c = d :=
  List.inj_on_of_nodup_map (List.nodup_append.mp h.nodup).1 hc hd hid

/-- What is a class is no protocol and no enumeration. -/
theorem class?_eq_none (h : cat.Consistent)
    (hid : id ∈ cat.latestProtocols.map (·.id) ∨ id ∈ cat.latestEnumerations.map (·.typeId)) :
    cat.class? id = none := by
  by_contra hsome
  have hclass := class?_isSome_iff.mp (Option.isSome_iff_ne_none.mpr hsome)
  exact (List.nodup_append.mp h.nodup).2.2 id hclass id (List.mem_append.mpr hid) rfl

/-- What is an enumeration is no protocol. -/
theorem protocol?_eq_none (h : cat.Consistent)
    (hid : id ∈ cat.latestEnumerations.map (·.typeId)) : cat.protocol? id = none := by
  by_contra hsome
  have hprotocol := protocol?_isSome_iff.mp (Option.isSome_iff_ne_none.mpr hsome)
  have hrest := (List.nodup_append.mp h.nodup).2.1
  exact (List.nodup_append.mp hrest).2.2 id hprotocol id hid rfl

/-- A class is found by its qualified name. -/
theorem named?_of_class (h : cat.Consistent) (hc : cat.class? id = some c) :
    cat.named? c.space c.name = some (.object id) := by
  have hid : TypeId.of c.space c.name = id :=
    (h.classId c (mem_of_class? hc)).symm.trans (id_of_class? hc)
  have hsome : (cat.class? id).isSome := Option.isSome_of_eq_some hc
  rw [named?, hid, if_pos hsome]

/-- A protocol is found by its qualified name. -/
theorem named?_of_protocol (h : cat.Consistent) (hp : cat.protocol? id = some p) :
    cat.named? p.space p.name = some (.protocol id) := by
  have hid : TypeId.of p.space p.name = id :=
    (h.protocolId p (mem_of_protocol? hp)).symm.trans (id_of_protocol? hp)
  have hsome : (cat.protocol? id).isSome := Option.isSome_of_eq_some hp
  have hnone := h.class?_eq_none (.inl (protocol?_isSome_iff.mp hsome))
  simp only [named?, hid, hnone, hsome, Option.isSome_none, Bool.false_eq_true, if_false, if_true]

/-- An enumeration is found by its qualified name. -/
theorem named?_of_enumeration (h : cat.Consistent) (he : cat.enumeration? id = some e) :
    cat.named? e.space e.name = some (.enumeration id) := by
  have hid : TypeId.of e.space e.name = id := id_of_enumeration? he
  have hsome : (cat.enumeration? id).isSome := Option.isSome_of_eq_some he
  have hmem := enumeration?_isSome_iff.mp hsome
  have hnone := h.class?_eq_none (.inr hmem)
  have hnone' := h.protocol?_eq_none hmem
  simp only [named?, hid, hnone, hnone', hsome, Option.isSome_none, Bool.false_eq_true, if_false,
    if_true]

end Consistent

end

/-! ## Declarations of members -/

/-- The member that a reference to a procedure of some sort on a value or a class of type `t`
stands for. -/
def member? (cat : Catalogue) : Procedure.Kind → Ty → Symbol → Option Member
  | .method => cat.method?
  | .classMethod => cat.classMethod?
  | .initializer => cat.initializer?

/-- A type on which a reference finds a member: its class inherits the member from a class that
declares it or declares it itself, or it is a protocol that has the member. -/
inductive Offers (cat : Catalogue) (t : Ty) (m : Member) : Prop
  | inherited {id : TypeId} {d : Class} (hid : t.kind = .object id) (hd : d ∈ cat.lineage id)
      (hm : m ∈ d.allMembers)
  | ofProtocol {id : TypeId} {p : Protocol} (hid : t.kind = .protocol id)
      (hp : cat.protocol? id = some p) (hm : m ∈ p.methods)

end Catalogue

theorem Ty.kind_of_objectId? {t : Ty} {id : TypeId} (h : t.objectId? = some id) :
    t.kind = .object id := by
  rw [objectId?] at h
  split at h
  · next hkind =>
    cases h
    exact hkind
  · cases h

theorem Class.mem_allMembers {c : Class} {kind : Procedure.Kind} {m : Member}
    (h : m ∈ c.members kind) : m ∈ c.allMembers := by
  rw [allMembers, List.mem_append, List.mem_append]
  match kind, h with
  | .method, h => exact .inl (.inl h)
  | .classMethod, h => exact .inl (.inr h)
  | .initializer, h => exact .inr h

theorem Class.exists_kind_of_mem_allMembers {c : Class} {m : Member} (h : m ∈ c.allMembers) :
    ∃ kind, m ∈ c.members kind := by
  rw [allMembers, List.mem_append, List.mem_append] at h
  obtain (h | h) | h := h
  · exact ⟨.method, h⟩
  · exact ⟨.classMethod, h⟩
  · exact ⟨.initializer, h⟩

namespace Catalogue

section

variable {cat : Catalogue} {t : Ty} {id : TypeId} {symbol : Symbol} {m : Member} {c d : Class}
  {kind : Procedure.Kind}

theorem mem_allMembers_of_own? (h : c.own? kind symbol = some m) : m ∈ c.allMembers :=
  Class.mem_allMembers (List.mem_of_find?_eq_some h)

theorem nearest?_eq_some (h : cat.nearest? kind id symbol = some m) :
    ∃ d ∈ cat.lineage id, m ∈ d.allMembers := by
  obtain ⟨d, hd, hm⟩ := List.exists_of_findSome?_eq_some h
  exact ⟨d, hd, mem_allMembers_of_own? hm⟩

theorem initializer?_eq_some (h : cat.initializer? t symbol = some m) :
    ∃ id, t.objectId? = some id ∧ ∃ d ∈ cat.lineage id, m ∈ d.allMembers := by
  rw [initializer?] at h
  split at h
  · next c ancestors hlineage =>
    obtain ⟨id, hid, hlineage⟩ := Option.map_eq_some_iff.mp hlineage
    refine ⟨id, hid, ?_⟩
    rw [hlineage]
    obtain hown | ⟨-, hfind⟩ := Option.or_eq_some_iff.mp h
    · exact ⟨c, List.mem_cons_self, mem_allMembers_of_own? hown⟩
    · obtain ⟨d, hd, hown⟩ := List.mem_filterMap.mp (List.mem_of_find?_eq_some hfind)
      exact ⟨d, List.mem_cons_of_mem c hd, mem_allMembers_of_own? hown⟩
  · cases h

/-- A member that is found on a type is offered by the type. -/
theorem offers_of_member? (h : cat.member? kind t symbol = some m) : cat.Offers t m := by
  match kind, h with
  | .method, h =>
    rw [member?, method?] at h
    split at h
    · next hid =>
      obtain ⟨d, hd, hm⟩ := nearest?_eq_some h
      exact .inherited hid hd hm
    · next hid =>
      obtain ⟨p, hp, hm⟩ := Option.bind_eq_some_iff.mp h
      exact .ofProtocol hid hp (List.mem_of_find?_eq_some hm)
    · cases h
  | .classMethod, h =>
    obtain ⟨id, hid, h⟩ := Option.bind_eq_some_iff.mp h
    obtain ⟨d, hd, hm⟩ := nearest?_eq_some h
    exact .inherited (Ty.kind_of_objectId? hid) hd hm
  | .initializer, h =>
    obtain ⟨id, hid, d, hd, hm⟩ := initializer?_eq_some h
    exact .inherited (Ty.kind_of_objectId? hid) hd hm

theorem mem_of_mem_lineage (h : d ∈ cat.lineage id) : d ∈ cat.latestClasses :=
  (lineageIn_sublist _ id).mem h

namespace Consistent

/-- The owner of a member of a class is the class. -/
theorem owner_of_mem (h : cat.Consistent) (hd : d ∈ cat.latestClasses) (hm : m ∈ d.allMembers) :
    m.owner = d.id := by
  obtain ⟨kind, hm⟩ := Class.exists_kind_of_mem_allMembers hm
  exact h.classOwner d hd kind m hm

/-- A member whose owner is a class is declared by that class. -/
theorem mem_of_owner (h : cat.Consistent) (hc : c ∈ cat.latestClasses) (ht : cat.Offers t m)
    (howner : m.owner = c.id) : m ∈ c.allMembers := by
  obtain ⟨-, hd, hm⟩ | @⟨pid, p, -, hp, hm⟩ := ht
  · have hd := mem_of_mem_lineage hd
    rw [h.eq_of_id hc hd (howner.symm.trans (h.owner_of_mem hd hm))]
    exact hm
  · have hmem := mem_of_protocol? hp
    have hid : p.id = c.id := (h.protocolOwner p hmem m hm).symm.trans howner
    have hnone := h.class?_eq_none (.inl (List.mem_map_of_mem hmem))
    have hsome := class?_isSome_iff.mpr (List.mem_map_of_mem hc)
    rw [← hid, hnone] at hsome
    exact absurd hsome (by decide)

end Consistent

end

end Catalogue

end Pictograph
