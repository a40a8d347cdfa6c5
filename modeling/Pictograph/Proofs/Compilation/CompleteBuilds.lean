import Mathlib.Data.Prod.Basic
import Pictograph.Proofs.Catalogue.DispatchTables
import Pictograph.Proofs.Catalogue.RegistrationOrder
import Pictograph.Proofs.Compilation.StringTables

/-!
# Complete builds

A class that has a body is compiled whole. So the program of a unit has one record for each member
of each such class, in the order of the declarations, and each record is that of its own member: the
header repeats what was registered, and the code is that of the body that was added for this member.

A member is known by its class, its sort and its name. No two members have all of these in common,
because registration refuses a second one and tells every member its sort.

## Main definitions

* `Class.Distinct`: the members of a class know their sort and have different names.
* `CompilationUnit.CompiledFrom`: a compiled procedure is that of a member of a class.

## Main results

* `Catalogue.Reachable.distinct`: the members of registered classes are distinct.
* `build_complete`: which procedures a program has, and how each of them is found.
-/

namespace Pictograph

/-! ## Members -/

/-- The members of a class know their sort, and no two of one sort have one name. -/
structure Class.Distinct (c : Class) : Prop where
  kind : ∀ kind, ∀ m ∈ c.members kind, m.kind = kind
  nodup : ∀ kind, ((c.members kind).map (·.symbol)).Nodup

/-- The sort and the name of a member, by which its class knows it. -/
def Member.key (m : Member) : Procedure.Kind × Symbol := (m.kind, m.symbol)

namespace Class.Distinct

variable {c : Class}

theorem nodup_members (h : c.Distinct) (kind : Procedure.Kind) :
    ((c.members kind).map Member.key).Nodup := by
  have hsymbols : (((c.members kind).map Member.key).map Prod.snd).Nodup := by
    rw [List.map_map]
    exact h.nodup kind
  exact hsymbols.of_map

/-- Members of different sorts have different keys. -/
theorem disjoint_members (h : c.Distinct) {k l : Procedure.Kind} (hne : k ≠ l) :
    List.Disjoint ((c.members k).map Member.key) ((c.members l).map Member.key) := by
  intro key hk hl
  obtain ⟨m, hm, rfl⟩ := List.mem_map.mp hk
  obtain ⟨n, hn, hkey⟩ := List.mem_map.mp hl
  apply hne
  rw [← h.kind k m hm, ← h.kind l n hn]
  exact (congrArg Prod.fst hkey).symm

/-- No two members of a class have the same key. -/
theorem nodup_allMembers (h : c.Distinct) : (c.allMembers.map Member.key).Nodup := by
  have hmethods := h.nodup_members .method
  have hclassMethods := h.nodup_members .classMethod
  have hinitializers := h.nodup_members .initializer
  have happart : List.Disjoint (c.methods.map Member.key ++ c.classMethods.map Member.key)
      (c.initializers.map Member.key) := by
    rw [List.disjoint_append_left]
    constructor
    · exact h.disjoint_members (k := .method) (l := .initializer) (by decide)
    · exact h.disjoint_members (k := .classMethod) (l := .initializer) (by decide)
  rw [allMembers, List.map_append, List.map_append]
  refine List.Nodup.append (List.Nodup.append hmethods hclassMethods ?_) hinitializers happart
  exact h.disjoint_members (k := .method) (l := .classMethod) (by decide)

end Class.Distinct

namespace Catalogue

/-- Members carry the sort they are numbered for. -/
theorem kind_of_mem_number {overridden? : Symbol → Option Member} {kind : Procedure.Kind}
    {owner : TypeId} {next : Nat} {procedures : List Procedure} {m : Member}
    (h : m ∈ (number overridden? kind owner next procedures).1) : m.kind = kind := by
  induction procedures generalizing next with
  | nil => exact absurd h List.not_mem_nil
  | cons p rest ih =>
    rw [number] at h
    split at h
    all_goals
      obtain rfl | h := List.mem_cons.mp h
      · rfl
      · exact ih h

theorem Admits.distinct_entry {cat : Catalogue} {d : ClassDeclaration} (hd : cat.Admits d) :
    (cat.entry d).Distinct where
  kind := by
    intro kind m hm
    rw [members_entry] at hm
    exact kind_of_mem_number hm
  nodup := by
    intro kind
    rw [members_entry, numbered, map_symbol_number]
    exact hd.distinct kind

/-- The members of registered classes are distinct. -/
theorem Reachable.distinct {cat : Catalogue} (h : cat.Reachable) :
    ∀ c ∈ cat.latestClasses, c.Distinct := by
  induction h with
  | empty => exact fun _ hc ↦ nomatch hc
  | add _ hadd ih =>
    obtain hsame | ⟨d, hd, rfl⟩ := latestClasses_of_add hadd
    · rw [hsame]
      exact ih
    · rw [withClass, List.forall_mem_cons]
      exact ⟨hd.distinct_entry, ih⟩

end Catalogue

/-! ## Programs -/

/-- The class, the sort and the name of a compiled procedure. -/
def CompiledMember.key (q : CompiledMember) : TypeId × Procedure.Kind × Symbol :=
  (q.owner, q.record.header.kind, q.record.header.symbol)

/-- A procedure is found by its key if no other one has it. -/
theorem Program.find?_eq_some {p : Program} {q : CompiledMember}
    (hp : (p.procedures.map CompiledMember.key).Nodup) (hq : q ∈ p.procedures) :
    p.find? q.owner q.record.header.kind q.record.header.symbol = some q.record := by
  rw [find?, proceduresOf, List.find?_map, List.find?_filter, List.find?_of_nodup_map hp hq]
  · rfl
  · simp
  · intro r _ hr
    simp only [decide_eq_true_eq, Function.comp_apply, Bool.and_eq_true, beq_iff_eq] at hr
    rw [CompiledMember.key, CompiledMember.key, hr.1, hr.2.1, hr.2.2]

namespace CompilationUnit

variable {u : CompilationUnit}

/-- A compiled procedure is that of a member of a class. Its header says what was registered. It has
no code if the member is native, and else the code of the body that was added for the member. -/
structure CompiledFrom (u : CompilationUnit) (c : Class) (m : Member) (q : CompiledMember) :
    Prop where
  owner : q.owner = c.id
  symbol : q.record.header.symbol = m.symbol
  kind : q.record.header.kind = m.kind
  slot : q.record.header.slot = m.slot
  argumentCount : q.record.header.argumentCount = m.arguments.length
  isNative : q.record.header.isNative = m.isNative
  native : m.isNative → q.record.code = .empty ∧ q.record.header.slotCount = 0
  body : m.isNative = false → ∃ b session session', u.body? c.id m.kind m.symbol = some b
    ∧ compile u.catalogue u.options session c m b.tokens = (.ok q.record, session')

theorem CompiledFrom.key {c : Class} {m : Member} {q : CompiledMember} (h : u.CompiledFrom c m q) :
    q.key = (c.id, m.key) := by
  rw [CompiledMember.key, h.owner, h.kind, h.symbol, Member.key]

/-- The tokens that a member is compiled from: those of its body, if it has one. -/
def tokensOf (u : CompilationUnit) (c : Class) (m : Member) : List Token :=
  (u.body? c.id m.kind m.symbol).elim [] (·.tokens)

/-- A member that is compiled has a body or is native. -/
theorem compile_of_compileMember {session session' : Session} {c : Class} {m : Member}
    {q : CompiledMember} (h : u.compileMember session c m = .ok (q, session')) :
    q.owner = c.id ∧ (u.body? c.id m.kind m.symbol = none → m.isNative)
      ∧ compile u.catalogue u.options session c m (u.tokensOf c m) = (.ok q.record, session') := by
  unfold compileMember at h
  dsimp only at h
  split at h
  · cases h
  next tokens htokens =>
  split at h
  · next record session'' hcompile =>
    cases h
    rw [tokensOf]
    cases hbody : u.body? c.id m.kind m.symbol with
    | some b =>
      rw [hbody] at htokens
      cases htokens
      exact ⟨rfl, nofun, hcompile⟩
    | none =>
      rw [hbody] at htokens
      by_cases hm : m.isNative
      · -- the tokens of a native member do not matter
        rw [compile, if_pos hm] at hcompile ⊢
        exact ⟨rfl, fun _ ↦ hm, hcompile⟩
      · simp [hm] at htokens
  · cases h

/-- A member that is compiled leaves its own record. -/
theorem compiledFrom_of_compileMember {session session' : Session} {c : Class} {m : Member}
    {q : CompiledMember} (h : u.compileMember session c m = .ok (q, session')) :
    u.CompiledFrom c m q := by
  obtain ⟨howner, hnative, hcompile⟩ := compile_of_compileMember h
  obtain ⟨slotCount, hheader⟩ := header_of_compile hcompile
  refine ⟨howner, by rw [hheader]; rfl, by rw [hheader]; rfl, by rw [hheader]; rfl,
    by rw [hheader]; rfl, by rw [hheader]; rfl, fun hm ↦ ?_, fun hm ↦ ?_⟩
  · rw [compile, if_pos hm] at hcompile
    obtain ⟨hrecord, -⟩ := Prod.mk.inj hcompile
    rw [← Except.ok.inj hrecord]
    exact ⟨rfl, rfl⟩
  · cases hbody : u.body? c.id m.kind m.symbol with
    | some b =>
      rw [tokensOf, hbody] at hcompile
      exact ⟨b, session, session', rfl, hcompile⟩
    | none =>
      rw [hnative hbody] at hm
      cases hm

/-- Members that are compiled leave one record each, in their order. -/
theorem forall₂_of_compileMembers {ms : List (Class × Member)} {session session' : Session}
    {qs : List CompiledMember} (h : u.compileMembers session ms = .ok (qs, session')) :
    List.Forall₂ (fun (c, m) q ↦ u.CompiledFrom c m q) ms qs := by
  induction ms generalizing session qs with
  | nil =>
    cases h
    exact .nil
  | cons cm ms ih =>
    obtain ⟨⟨q, session₁⟩, hfirst, h⟩ := Catalogue.bind_ok.mp h
    obtain ⟨⟨qs', session₂⟩, hrest, h⟩ := Catalogue.bind_ok.mp h
    cases h
    exact .cons (compiledFrom_of_compileMember hfirst) (ih hrest)

theorem map_key_of_forall₂ {ms : List (Class × Member)} {qs : List CompiledMember}
    (h : List.Forall₂ (fun (c, m) q ↦ u.CompiledFrom c m q) ms qs) :
    qs.map CompiledMember.key = ms.map fun (c, m) ↦ (c.id, m.key) := by
  induction h with
  | nil => rfl
  | cons hq _ ih => rw [List.map_cons, List.map_cons, hq.key, ih]

/-- Among the members to be compiled, no two have the same class, sort and name. -/
theorem nodup_members (h : u.catalogue.Reachable) :
    (u.members.map fun (c, m) ↦ (c.id, m.key)).Nodup := by
  have hclasses : ((u.catalogue.classes.filter (u.hasBodyOf ·.id)).map (·.id)).Nodup := by
    have hids : (u.catalogue.classes.map (·.id)).Nodup := by
      rw [Catalogue.classes, List.map_reverse, List.nodup_reverse]
      exact h.nodup
    exact (List.filter_sublist.map _).nodup hids
  rw [members, List.map_flatMap, List.nodup_flatMap]
  constructor
  · intro c hc
    have hmem : c ∈ u.catalogue.latestClasses :=
      Catalogue.mem_classes.mp (List.mem_of_mem_filter hc)
    have hkeys := (h.distinct c hmem).nodup_allMembers.map (Prod.mk_right_injective c.id)
    rw [List.map_map] at hkeys ⊢
    exact hkeys
  · refine (List.pairwise_map.mp hclasses).imp ?_
    intro c d hne key hc hd
    dsimp only at hc hd
    rw [List.map_map, List.mem_map] at hc hd
    obtain ⟨m, -, rfl⟩ := hc
    obtain ⟨n, -, hkey⟩ := hd
    exact hne (congrArg Prod.fst hkey).symm

end CompilationUnit

/-- **A successful build is complete and ordered.** The procedures of the program are the members of
the classes that have a body: the classes in the order of the class table, and of each class its
methods, its class methods and its initializers, in the order of their declarations. There is one
record for each, with the header that was registered and the code of the body that was added. No two
procedures have the same class, sort and name, so the program finds each of them by these. -/
theorem build_complete {u : CompilationUnit} {p : Program} (hcat : u.catalogue.Reachable)
    (h : u.build.1 = .ok p) :
    List.Forall₂ (fun (c, m) q ↦ u.CompiledFrom c m q)
      ((u.catalogue.classes.filter (u.hasBodyOf ·.id)).flatMap fun c ↦
        (c.methods ++ c.classMethods ++ c.initializers).map (c, ·)) p.procedures
    ∧ (p.procedures.map CompiledMember.key).Nodup
    ∧ ∀ c ∈ u.catalogue.classes, u.hasBodyOf c.id → ∀ kind, ∀ m ∈ c.members kind,
        ∃ q ∈ p.procedures, u.CompiledFrom c m q
          ∧ p.find? c.id kind m.symbol = some q.record := by
  obtain ⟨session, hmembers, -⟩ := CompilationUnit.compileProgram_ok h
  have hcompiled := CompilationUnit.forall₂_of_compileMembers hmembers
  have hnodup : (p.procedures.map CompiledMember.key).Nodup := by
    rw [CompilationUnit.map_key_of_forall₂ hcompiled]
    exact CompilationUnit.nodup_members hcat
  refine ⟨hcompiled, hnodup, ?_⟩
  intro c hc hbody kind m hm
  have hclass : c ∈ u.catalogue.classes.filter (u.hasBodyOf ·.id) :=
    List.mem_filter.mpr ⟨hc, hbody⟩
  have hmember : m ∈ c.allMembers := Class.mem_allMembers hm
  have hmem : (c, m) ∈ u.members :=
    List.mem_flatMap.mpr ⟨c, hclass, List.mem_map.mpr ⟨m, hmember, rfl⟩⟩
  obtain ⟨q, hq, hfrom⟩ := exists_mem_of_forall₂_left hcompiled hmem
  refine ⟨q, hq, hfrom, ?_⟩
  have hkind : m.kind = kind := (hcat.distinct c (Catalogue.mem_classes.mp hc)).kind kind m hm
  have hfind := Program.find?_eq_some hnodup hq
  rw [hfrom.owner, hfrom.kind, hfrom.symbol, hkind] at hfind
  exact hfind

/-! ## A sample -/

namespace Sample

/-- A class 🐤 with a method, a class method and an initializer, all of them called 🐕, and a native
initializer 🐥. -/
def brood : ClassDeclaration where
  space := Vocabulary.defaultNamespace
  name := ⟨0x1F424⟩
  methods := [{ symbol := ⟨0x1F415⟩ }]
  classMethods := [{ symbol := ⟨0x1F415⟩ }]
  initializers := [{ symbol := ⟨0x1F415⟩ }, { symbol := ⟨0x1F425⟩, isNative := true }]

/-- The body `🍉` for one of the procedures 🐕. -/
def broodBody (kind : Procedure.Kind) : Body where
  owner := brood.typeId
  kind := kind
  symbol := ⟨0x1F415⟩
  tokens := [ask .blockClose]

/-- Bodies for the class 🐤, and none for the class 🐈. -/
def nest : CompilationUnit where
  catalogue := (Catalogue.empty.addIfPossible (.ofClass wide)).addIfPossible (.ofClass brood)
  bodies := [broodBody .initializer, broodBody .method, broodBody .classMethod]

end Sample

/-- The unit is built. Its program has the four procedures of 🐤 in the order of the class, and
finds the native one, which has no code. -/
theorem build_complete_sample :
    Sample.nest.catalogue.Reachable
    ∧ ∃ p, Sample.nest.build.1 = .ok p
      ∧ p.procedures.map CompiledMember.key
        = [(Sample.brood.typeId, .method, ⟨0x1F415⟩),
          (Sample.brood.typeId, .classMethod, ⟨0x1F415⟩),
          (Sample.brood.typeId, .initializer, ⟨0x1F415⟩),
          (Sample.brood.typeId, .initializer, ⟨0x1F425⟩)]
      ∧ ∃ record, p.find? Sample.brood.typeId .initializer ⟨0x1F425⟩ = some record
        ∧ record.code = .empty := by
  have hreach : Sample.nest.catalogue.Reachable :=
    (Catalogue.Reachable.empty.addIfPossible (.ofClass Sample.wide)).addIfPossible
      (.ofClass Sample.brood)
  have hkeys : Sample.nest.build.1.toOption.map (·.procedures.map CompiledMember.key)
      = some [(Sample.brood.typeId, .method, ⟨0x1F415⟩),
        (Sample.brood.typeId, .classMethod, ⟨0x1F415⟩),
        (Sample.brood.typeId, .initializer, ⟨0x1F415⟩),
        (Sample.brood.typeId, .initializer, ⟨0x1F425⟩)] := by
    decide +kernel
  obtain ⟨c, hc, hid, m, hm, hsymbol, hnative⟩ : ∃ c ∈ Sample.nest.catalogue.classes,
      c.id = Sample.brood.typeId ∧ ∃ m ∈ c.members .initializer, m.symbol = ⟨0x1F425⟩
        ∧ m.isNative := by
    decide +kernel
  cases h : Sample.nest.build.1 with
  | error e =>
    rw [h] at hkeys
    cases hkeys
  | ok p =>
    rw [h] at hkeys
    obtain ⟨-, -, hfind⟩ := build_complete hreach h
    obtain ⟨q, -, hfrom, hq⟩ := hfind c hc (hid ▸ by decide +kernel) .initializer m hm
    rw [hid, hsymbol] at hq
    exact ⟨hreach, p, rfl, Option.some.inj hkeys, q.record, hq, (hfrom.native hnative).1⟩

end Pictograph
