import Pictograph.Proofs.Catalogue.ReadBack

/-!
# The nodes of annotations and of the types they denote

An annotation is a tree, and so is the type that it denotes. The nodes of the annotation are found
in the type at the same places: a callable has its return type in front of the types of its
arguments, also if the return type is not written, and a class has its generic arguments in order.
The type may have more nodes, because generic arguments that are left out are filled in from the
constraints.

What a node denotes is a matter of the node and of the namespace it is read in. That is the
innermost namespace that is written at a name around the node. Only where no name around it has one,
it is the namespace that the whole annotation is read in.

## Main definitions

* `Ty.at?`, `Annotation.at?`: the nodes of types and of annotations, by their places.
* `Annotation.spacesAround`: the namespaces that are written around a place.
* `Catalogue.Refers`: a type is a declared one, with as many arguments as it has parameters.
* `Catalogue.BuiltFrom`: what a node of a type has to do with the node it is built from.

## Main results

* `Annotation.exists_at?`: every node of an annotation is in the type, at the same place.
* `Catalogue.annotation_names_resolved`: which namespace each name is looked up in.
* `Catalogue.annotation_wellFormed`: what is true of all that the reader returns.
-/

namespace Pictograph

/-! ## Places -/

/-- The type at a place inside a type. A place is the list of positions among generic arguments that
lead there. -/
def Ty.at? : Ty → List Nat → Option Ty
  | t, [] => some t
  | t, i :: path => t.arguments[i]?.bind (·.at? path)

namespace Annotation

/-- The annotation that stands for one generic argument of the type. The first argument of a
callable is its return type. -/
def child? : Annotation → Nat → Option Annotation
  | builtIn _ _, _ => none
  | action _ _, 0 => none
  | action _ arguments, i + 1 => arguments[i]?
  | function _ _ result, 0 => some result
  | function _ arguments _, i + 1 => arguments[i]?
  | named _ _ _ arguments, i => arguments[i]?

/-- The annotation at a place inside an annotation. -/
def at? : Annotation → List Nat → Option Annotation
  | a, [] => some a
  | a, i :: path => (a.child? i).bind (·.at? path)

/-- The namespace that is written at a name. -/
def space? : Annotation → Option Symbol
  | named _ space? _ _ => space?
  | _ => none

/-- The namespaces that are written at the names around a place, the innermost one last. -/
def spacesAround : Annotation → List Nat → List Symbol
  | _, [] => []
  | a, i :: path => a.space?.toList ++ (a.child? i).elim [] (·.spacesAround path)

/-- The namespace in which the annotation at a place is read. -/
def spaceAt (a : Annotation) (space : Symbol) (path : List Nat) : Symbol :=
  (a.spacesAround path).getLastD space

variable {cat : Catalogue} {space : Symbol} {a b : Annotation} {as : List Annotation} {t : Ty}
  {ts : List Ty} {i : Nat} {path : List Nat}

theorem spaceAt_cons (hb : a.child? i = some b) :
    a.spaceAt space (i :: path) = b.spaceAt (a.space?.getD space) path := by
  rw [spaceAt, spacesAround, hb, Option.elim_some, spaceAt]
  cases a.space? with
  | none => rfl
  | some explicit => exact List.getLastD_cons

/-! ## Nodes of annotations and of types -/

theorem exists_getElem?_of_types? (h : types? cat space as = some ts) (ha : as[i]? = some a) :
    ∃ t, ts[i]? = some t ∧ a.type? cat space = some t := by
  induction as generalizing ts i with
  | nil => cases ha
  | cons b as ih =>
    rw [types?] at h
    obtain ⟨u, hu, h⟩ := Option.bind_eq_some_iff.mp h
    obtain ⟨us, hus, rfl⟩ := Option.map_eq_some_iff.mp h
    cases i with
    | zero =>
      cases ha
      exact ⟨u, rfl, hu⟩
    | succ i =>
      obtain ⟨t, ht, ha⟩ := ih hus ha
      exact ⟨t, ht, ha⟩

theorem length_types? (h : types? cat space as = some ts) : ts.length = as.length := by
  induction as generalizing ts with
  | nil =>
    cases h
    rfl
  | cons a as ih =>
    rw [types?] at h
    obtain ⟨u, -, h⟩ := Option.bind_eq_some_iff.mp h
    obtain ⟨us, hus, rfl⟩ := Option.map_eq_some_iff.mp h
    rw [List.length_cons, List.length_cons, ih hus]

/-- What a declared type with its generic arguments looks like. -/
theorem applied?_eq_some {u : Ty} {written : List Ty} (h : applied? cat u written = some t) :
    t.kind = u.kind ∧ ((cat.classOf? u = none ∧ written = [] ∧ t = u)
      ∨ ∃ k, cat.classOf? u = some k ∧ written.length ≤ k.constraints.length
        ∧ t.arguments = written ++ k.constraints.drop written.length) := by
  unfold applied? at h
  cases hclass : cat.classOf? u with
  | none =>
    simp only [hclass] at h
    split at h
    · next hwritten =>
      cases h
      exact ⟨rfl, .inl ⟨rfl, hwritten, rfl⟩⟩
    · cases h
  | some k =>
    simp only [hclass] at h
    split at h
    · next hlength =>
      cases h
      exact ⟨rfl, .inr ⟨k, rfl, hlength, rfl⟩⟩
    · cases h

/-- What a name denotes. -/
theorem exists_of_type?_named {o : Bool} {explicit? : Option Symbol} {name : Symbol}
    (h : (named o explicit? name as).type? cat space = some t) :
    ∃ u written v, cat.named? (explicit?.getD space) name = some u
      ∧ types? cat (explicit?.getD space) as = some written ∧ applied? cat u written = some v
      ∧ t = v.withOptional o := by
  rw [type?] at h
  obtain ⟨u, hu, h⟩ := Option.bind_eq_some_iff.mp h
  obtain ⟨written, hwritten, h⟩ := Option.bind_eq_some_iff.mp h
  obtain ⟨v, hv, rfl⟩ := Option.map_eq_some_iff.mp h
  exact ⟨u, written, v, hu, hwritten, hv, rfl⟩

/-- What stands directly inside an annotation stands directly inside the type. -/
theorem exists_child? (h : a.type? cat space = some t) (hb : a.child? i = some b) :
    ∃ u, t.arguments[i]? = some u ∧ b.type? cat (a.space?.getD space) = some u := by
  cases a with
  | builtIn o symbol => cases hb
  | action o as =>
    cases i with
    | zero => cases hb
    | succ i =>
      rw [type?] at h
      obtain ⟨ts, hts, rfl⟩ := Option.map_eq_some_iff.mp h
      obtain ⟨u, hu, hb⟩ := exists_getElem?_of_types? hts hb
      exact ⟨u, hu, hb⟩
  | function o as r =>
    rw [type?] at h
    obtain ⟨ts, hts, h⟩ := Option.bind_eq_some_iff.mp h
    obtain ⟨u, hu, rfl⟩ := Option.map_eq_some_iff.mp h
    cases i with
    | zero =>
      cases hb
      exact ⟨u, rfl, hu⟩
    | succ i =>
      obtain ⟨w, hw, hb⟩ := exists_getElem?_of_types? hts hb
      exact ⟨w, hw, hb⟩
  | named o explicit? name as =>
    obtain ⟨u, written, v, -, hwritten, hv, rfl⟩ := exists_of_type?_named h
    obtain ⟨w, hw, hb⟩ := exists_getElem?_of_types? hwritten hb
    refine ⟨w, ?_, hb⟩
    obtain ⟨-, ⟨-, rfl, -⟩ | ⟨k, -, -, harguments⟩⟩ := applied?_eq_some hv
    · cases hw
    · obtain ⟨hi, -⟩ := List.getElem?_eq_some_iff.mp hw
      rw [Ty.withOptional, harguments, List.getElem?_append_left hi, hw]

/-- **Every node of an annotation is in the type**, at the same place. It denotes what is there. -/
theorem exists_at? (h : a.type? cat space = some t) (hb : a.at? path = some b) :
    ∃ u, t.at? path = some u ∧ b.type? cat (a.spaceAt space path) = some u := by
  induction path generalizing a t space with
  | nil =>
    cases hb
    exact ⟨t, rfl, h⟩
  | cons i path ih =>
    obtain ⟨a', ha', hb⟩ := Option.bind_eq_some_iff.mp hb
    obtain ⟨t', ht', h⟩ := exists_child? h ha'
    obtain ⟨u, hu, hb⟩ := ih h hb
    exact ⟨u, Option.bind_eq_some_iff.mpr ⟨t', ht', hu⟩, spaceAt_cons ha' ▸ hb⟩

end Annotation

/-! ## Declared types and callables -/

/-- Every callable in a type has a return type. -/
def Ty.HasResults (t : Ty) : Prop :=
  ∀ path u, t.at? path = some u → u.kind = .callable → u.result?.isSome

theorem Ty.HasResults.of_arguments {t : Ty} (hself : t.kind = .callable → t.arguments ≠ [])
    (h : ∀ u ∈ t.arguments, u.HasResults) : t.HasResults := by
  intro path u hu hkind
  cases path with
  | nil =>
    cases hu
    rw [Ty.result?, hkind]
    exact List.isSome_head?.mpr (hself hkind)
  | cons i path =>
    obtain ⟨v, hv, hu⟩ := Option.bind_eq_some_iff.mp hu
    exact h v (List.mem_of_getElem? hv) path u hu hkind

theorem Ty.hasResults_callable {result : Ty} {arguments : List Ty} {o : Bool}
    (hresult : result.HasResults) (h : ∀ u ∈ arguments, u.HasResults) :
    ((Ty.callable result arguments).withOptional o).HasResults :=
  .of_arguments (fun _ ↦ List.cons_ne_nil _ _) (List.forall_mem_cons.mpr ⟨hresult, h⟩)

namespace Catalogue

open Annotation

/-- A type is a registered class with one generic argument for each parameter, a registered protocol
or a registered enumeration, and it may be optional. -/
inductive Refers (cat : Catalogue) (id : TypeId) : Ty → Prop
  | object {o arguments k} (hk : cat.class? id = some k)
      (hlength : arguments.length = k.constraints.length) : Refers cat id ⟨.object id, o, arguments⟩
  | protocol {o} (hp : (cat.protocol? id).isSome) : Refers cat id ⟨.protocol id, o, []⟩
  | enumeration {o} (he : (cat.enumeration? id).isSome) : Refers cat id ⟨.enumeration id, o, []⟩

/-- What the type of an annotation that is read in a namespace looks like. -/
inductive BuiltFrom (cat : Catalogue) (space : Symbol) : Annotation → Ty → Prop
  | builtIn {o symbol u} (hu : builtIn? symbol = some u) :
      BuiltFrom cat space (.builtIn o symbol) (u.withOptional o)
  | action {o as ts} (hlength : ts.length = as.length) :
      BuiltFrom cat space (.action o as) ((Ty.callable .nothingness ts).withOptional o)
  | function {o as r result ts} (hlength : ts.length = as.length) :
      BuiltFrom cat space (.function o as r) ((Ty.callable result ts).withOptional o)
  | named {space? name as t} (ht : cat.Refers (TypeId.of (space?.getD space) name) t) :
      BuiltFrom cat space (.named t.isOptional space? name as) t

theorem Refers.kind_ne_callable {cat : Catalogue} {id : TypeId} {t : Ty} (h : cat.Refers id t) :
    t.kind ≠ .callable := by
  cases h <;> exact fun h ↦ by cases h

section

variable {cat : Catalogue} {context : Ty} {space : Symbol} {c d : Cursor} {t : Ty}
  {a : Annotation} {dynamism : Dynamism} {isDynamic : Bool}

/-- A name stands for a registered type, and a class, a protocol or an enumeration with this name
has arguments as its parameters say. -/
theorem refers_of_applied? {name : Symbol} {u v : Ty} {written : List Ty} {o : Bool}
    (hu : cat.named? space name = some u) (hv : applied? cat u written = some v) :
    cat.Refers (TypeId.of space name) (v.withOptional o) := by
  obtain ⟨hkind, happlied⟩ := applied?_eq_some hv
  unfold named? at hu
  dsimp only at hu
  split at hu
  · next hclass =>
    cases hu
    obtain ⟨k, hk⟩ := Option.isSome_iff_exists.mp hclass
    obtain ⟨hnone, -⟩ | ⟨k', hk', hlength, harguments⟩ := happlied
    · cases hk.symm.trans hnone
    · cases hk.symm.trans hk'
      rw [Ty.withOptional, harguments, hkind]
      refine .object hk ?_
      rw [List.length_append, List.length_drop, Nat.add_sub_cancel' hlength]
  · split at hu
    · next hprotocol =>
      cases hu
      obtain ⟨-, -, rfl⟩ | ⟨k, hk, -⟩ := happlied
      · exact .protocol hprotocol
      · cases hk
    · split at hu
      · next henumeration =>
        cases hu
        obtain ⟨-, -, rfl⟩ | ⟨k, hk, -⟩ := happlied
        · exact .enumeration henumeration
        · cases hk
      · cases hu

theorem arguments_of_named? {name : Symbol} (h : cat.named? space name = some t) :
    t.arguments = [] := by
  unfold named? at h
  dsimp only at h
  split_ifs at h <;> cases h <;> rfl

/-- A built-in type is no callable, and has no arguments. -/
theorem builtIn?_eq_some {symbol : Symbol} (h : builtIn? symbol = some t) :
    t.kind ≠ .callable ∧ t.arguments = [] := by
  obtain ⟨l, m, hsplit, -⟩ := List.lookup_eq_some_iff.mp h
  have hmem : (symbol, t) ∈ [(Vocabulary.boolean, Ty.boolean), (Vocabulary.integer, .integer),
      (Vocabulary.double, .double), (Vocabulary.symbol, .symbol), (Vocabulary.anything, .anything),
      (Vocabulary.anyObject, .anyObject), (Vocabulary.nothingness, .nothingness)] := by
    rw [hsplit]
    exact List.mem_append_right _ List.mem_cons_self
  have hall : ∀ p ∈ [(Vocabulary.boolean, Ty.boolean), (Vocabulary.integer, .integer),
      (Vocabulary.double, .double), (Vocabulary.symbol, .symbol), (Vocabulary.anything, .anything),
      (Vocabulary.anyObject, .anyObject), (Vocabulary.nothingness, .nothingness)],
      p.2.kind ≠ .callable ∧ p.2.arguments = [] := by
    decide
  exact hall _ hmem

/-- What an annotation denotes looks like it. -/
theorem builtFrom_of_type? (h : a.type? cat space = some t) : cat.BuiltFrom space a t := by
  cases a with
  | builtIn o symbol =>
    rw [type?] at h
    obtain ⟨u, hu, rfl⟩ := Option.map_eq_some_iff.mp h
    exact .builtIn hu
  | action o as =>
    rw [type?] at h
    obtain ⟨ts, hts, rfl⟩ := Option.map_eq_some_iff.mp h
    exact .action (length_types? hts)
  | function o as r =>
    rw [type?] at h
    obtain ⟨ts, hts, h⟩ := Option.bind_eq_some_iff.mp h
    obtain ⟨u, -, rfl⟩ := Option.map_eq_some_iff.mp h
    exact .function (length_types? hts)
  | named o explicit? name as =>
    obtain ⟨u, written, v, hu, -, hv, rfl⟩ := exists_of_type?_named h
    exact .named (refers_of_applied? hu hv)

mutual

/-- If the callables in all constraints have return types, so have those in what an annotation
denotes. -/
theorem hasResults_of_type? (hcat : ∀ k ∈ cat.latestClasses, ∀ u ∈ k.constraints, u.HasResults) :
    ∀ (a : Annotation) {space : Symbol} {t : Ty}, a.type? cat space = some t → t.HasResults
  | .builtIn o symbol, _, _, h => by
    rw [type?] at h
    obtain ⟨u, hu, rfl⟩ := Option.map_eq_some_iff.mp h
    obtain ⟨hkind, harguments⟩ := builtIn?_eq_some hu
    refine .of_arguments (fun h ↦ absurd h hkind) fun v hv ↦ ?_
    rw [Ty.withOptional, harguments] at hv
    cases hv
  | .action o as, _, _, h => by
    rw [type?] at h
    obtain ⟨ts, hts, rfl⟩ := Option.map_eq_some_iff.mp h
    refine Ty.hasResults_callable ?_ (hasResults_of_types? hcat as hts)
    exact .of_arguments nofun nofun
  | .function o as r, _, _, h => by
    rw [type?] at h
    obtain ⟨ts, hts, h⟩ := Option.bind_eq_some_iff.mp h
    obtain ⟨u, hu, rfl⟩ := Option.map_eq_some_iff.mp h
    exact Ty.hasResults_callable (hasResults_of_type? hcat r hu) (hasResults_of_types? hcat as hts)
  | .named o explicit? name as, _, _, h => by
    obtain ⟨u, written, v, hu, hwritten, hv, rfl⟩ := exists_of_type?_named h
    have hwritten := hasResults_of_types? hcat as hwritten
    have hrefers := refers_of_applied? hu hv (o := o)
    refine .of_arguments (fun hkind ↦ absurd hkind hrefers.kind_ne_callable) fun w hw ↦ ?_
    rw [Ty.withOptional] at hw
    obtain ⟨-, ⟨-, -, rfl⟩ | ⟨k, hk, -, harguments⟩⟩ := applied?_eq_some hv
    · rw [arguments_of_named? hu] at hw
      cases hw
    · rw [harguments] at hw
      obtain hw | hw := List.mem_append.mp hw
      · exact hwritten w hw
      · obtain ⟨id, -, hid⟩ := Option.bind_eq_some_iff.mp hk
        exact hcat k (List.mem_of_find?_eq_some hid) w (List.mem_of_mem_drop hw)

theorem hasResults_of_types? (hcat : ∀ k ∈ cat.latestClasses, ∀ u ∈ k.constraints, u.HasResults) :
    ∀ (as : List Annotation) {space : Symbol} {ts : List Ty}, types? cat space as = some ts →
      ∀ t ∈ ts, t.HasResults
  | [], _, _, h => by
    cases h
    exact List.forall_mem_nil _
  | a :: as, _, _, h => by
    rw [types?] at h
    obtain ⟨u, hu, h⟩ := Option.bind_eq_some_iff.mp h
    obtain ⟨us, hus, rfl⟩ := Option.map_eq_some_iff.mp h
    exact List.forall_mem_cons.mpr ⟨hasResults_of_type? hcat a hu, hasResults_of_types? hcat as hus⟩

end

/-! ## What is read -/

/-- **Which namespace a name is looked up in.** What the reader accepts is the dynamic class, or it
is an annotation in which every name without a namespace stands for what the name is declared as in
the innermost namespace that is written at a name around it. If there is none, this is the namespace
that the annotation is read in. -/
theorem annotation_names_resolved
    (h : cat.annotation context space dynamism c = .ok (t, isDynamic) d) :
    (isDynamic = true
        ∧ ∃ o, c.Spells (mark o ++ [Construct.dynamicClass.spelling]) d)
      ∨ isDynamic = false ∧ ∃ a : Annotation, a.Plain ∧ c.Spells a.symbols d
        ∧ a.type? cat space = some t
        ∧ ∀ path o name as, a.at? path = some (.named o none name as) →
          ∃ u v, t.at? path = some u
            ∧ cat.named? ((a.spacesAround path).getLastD space) name = some v
            ∧ u.kind = v.kind := by
  cases isDynamic with
  | true =>
    obtain ⟨-, o, hspells, -⟩ := spells_dynamic h
    exact .inl ⟨rfl, o, hspells⟩
  | false =>
    obtain ⟨a, hplain, hspells, ha⟩ := exists_plain_annotation h
    refine .inr ⟨rfl, a, hplain, hspells, ha, fun path o name as hpath ↦ ?_⟩
    obtain ⟨u, hu, htype⟩ := exists_at? ha hpath
    obtain ⟨v, written, w, hv, -, hw, rfl⟩ := exists_of_type?_named htype
    exact ⟨_, v, hu, hv, (applied?_eq_some hw).1⟩

/-- **What is read is well-formed.** The reader moves on by at least one token, and not past the
end. The dynamic class is read only where it is allowed, in the context of a class, and as the whole
annotation. All else that is read is the type of an annotation in which no name is that of the
dynamic class, and each node of the annotation is in the type at the same place: names refer to what
is registered, with as many generic arguments as there are parameters, and callables have their
return types. Callables from constraints have return types if they have them there. -/
theorem annotation_wellFormed
    (h : cat.annotation context space dynamism c = .ok (t, isDynamic) d) :
    c.position < d.position ∧ d.position + d.remaining = c.position + c.remaining
    ∧ (isDynamic = true → dynamism = .allowed ∧ context.objectId?.isSome
      ∧ ∃ o, c.Spells (mark o ++ [Construct.dynamicClass.spelling]) d
        ∧ t = context.withOptional o)
    ∧ (isDynamic = false → ∃ a : Annotation, a.Plain ∧ c.Spells a.symbols d
      ∧ a.type? cat space = some t
      ∧ (∀ path b, a.at? path = some b →
        ∃ u, t.at? path = some u ∧ cat.BuiltFrom (a.spaceAt space path) b u)
      ∧ ((∀ k ∈ cat.latestClasses, ∀ u ∈ k.constraints, u.HasResults) → t.HasResults)) := by
  cases isDynamic with
  | true =>
    obtain ⟨hallowed, o, hspells, hcontext, ht⟩ := spells_dynamic h
    obtain ⟨hposition, hend⟩ := hspells.position
    rw [List.length_append, List.length_singleton] at hposition
    exact ⟨by omega, hend, fun _ ↦ ⟨hallowed, hcontext, o, hspells, ht⟩, Bool.noConfusion⟩
  | false =>
    obtain ⟨a, hplain, hspells, ha⟩ := exists_plain_annotation h
    obtain ⟨hposition, hend⟩ := hspells.position
    have hlength := length_symbols_pos a
    refine ⟨by omega, hend, Bool.noConfusion, fun _ ↦ ⟨a, hplain, hspells, ha, fun path b hb ↦ ?_,
      fun hcat ↦ hasResults_of_type? hcat a ha⟩⟩
    obtain ⟨u, hu, hb⟩ := exists_at? ha hb
    exact ⟨u, hu, builtFrom_of_type? hb⟩

end

end Catalogue

namespace Sample

/-- The namespace 🏰. -/
def castle : Symbol := ⟨0x1F3F0⟩

/-- A class 🐱 in the namespace 🏰. -/
def castleCat : ClassDeclaration where
  space := castle
  name := ⟨0x1F431⟩

/-- A class 📦 in the namespace 🏰, with one generic parameter. -/
def castleBox : ClassDeclaration where
  space := castle
  name := ⟨0x1F4E6⟩
  constraints := [.anything]

/-- The catalogue of both classes and a class 🐱 in the default namespace. -/
def castles : Catalogue :=
  ((Catalogue.empty.addIfPossible (.ofClass cat)).addIfPossible (.ofClass castleCat)).addIfPossible
    (.ofClass castleBox)

theorem reachable_castles : castles.Reachable :=
  ((Catalogue.Reachable.empty.addIfPossible _).addIfPossible _).addIfPossible _

/-- The tokens of `🔶 🏰 📦 🐚 🐱`. -/
def qualifiedBox : List Token :=
  Cursor.identifiers
    [Vocabulary.namespaceMark, castle, ⟨0x1F4E6⟩, Vocabulary.genericMark, ⟨0x1F431⟩]
    .nowhere

/-- What they are read as in the default namespace: the 📦 of a 🐱, both from 🏰. -/
theorem annotation_qualifiedBox :
    castles.annotation .integer Vocabulary.defaultNamespace .forbidden (.start qualifiedBox)
      = .ok (.objectOf castleBox.typeId [.object castleCat.typeId], false)
        ⟨qualifiedBox.reverse, []⟩ :=
  Reading.eq_ok_of_success? (by decide +kernel)

/-- A class 📭 with a generic parameter that stands for callables, of which nothing else is said. -/
def letterbox : ClassDeclaration where
  space := Vocabulary.defaultNamespace
  name := ⟨0x1F4ED⟩
  constraints := [.plain .callable]

/-- The catalogue of this class. -/
def letterboxes : Catalogue := Catalogue.empty.addIfPossible (.ofClass letterbox)

end Sample

namespace Catalogue

/-- A qualified name with an argument. -/
theorem annotation_names_resolved_qualifiedBox :
    ∃ a : Annotation, a.Plain
      ∧ a.type? Sample.castles Vocabulary.defaultNamespace
        = some (.objectOf Sample.castleBox.typeId [.object Sample.castleCat.typeId])
      ∧ ∀ path o name as, a.at? path = some (.named o none name as) →
        (Sample.castles.named?
          ((a.spacesAround path).getLastD Vocabulary.defaultNamespace) name).isSome := by
  obtain ⟨hfalse, -⟩ | ⟨-, a, hplain, -, ha, hnames⟩ :=
    annotation_names_resolved Sample.annotation_qualifiedBox
  · cases hfalse
  · refine ⟨a, hplain, ha, fun path o name as hpath ↦ ?_⟩
    obtain ⟨u, v, -, hv, -⟩ := hnames path o name as hpath
    exact Option.isSome_of_eq_some hv

/-- **A namespace that is written covers the arguments.** In `🔶 🏰 📦 🐚 🐱`, read in the default
namespace, the name 🐱 stands for the class in 🏰. By itself it stands for the one in the default
namespace. -/
theorem annotation_covers_arguments :
    Sample.castles.Reachable
    ∧ Sample.castles.annotation .integer Vocabulary.defaultNamespace .forbidden
        (.start Sample.qualifiedBox)
      = .ok (.objectOf Sample.castleBox.typeId [.object Sample.castleCat.typeId], false)
        ⟨Sample.qualifiedBox.reverse, []⟩
    ∧ Sample.castles.named? Vocabulary.defaultNamespace ⟨0x1F431⟩
      = some (.object Sample.cat.typeId)
    ∧ Sample.cat.typeId ≠ Sample.castleCat.typeId :=
  ⟨Sample.reachable_castles, Sample.annotation_qualifiedBox, by decide +kernel, by decide +kernel⟩

/-- A name of a class with an argument is read. -/
theorem annotation_wellFormed_qualifiedBox :
    ∃ a : Annotation, a.Plain
      ∧ a.type? Sample.castles Vocabulary.defaultNamespace
        = some (.objectOf Sample.castleBox.typeId [.object Sample.castleCat.typeId])
      ∧ Sample.castles.BuiltFrom Vocabulary.defaultNamespace a
        (.objectOf Sample.castleBox.typeId [.object Sample.castleCat.typeId]) := by
  obtain ⟨-, -, -, hread⟩ := annotation_wellFormed Sample.annotation_qualifiedBox
  obtain ⟨a, hplain, -, ha, hnodes, -⟩ := hread rfl
  obtain ⟨u, hu, hbuilt⟩ := hnodes [] a rfl
  cases hu
  exact ⟨a, hplain, ha, hbuilt⟩

/-- **A constraint is taken as it is.** `📭` is read as the class with the constraint for an
argument, and the constraint is a callable without a return type. -/
theorem annotation_takes_constraint :
    let tokens := Cursor.identifiers [⟨0x1F4ED⟩] .nowhere
    Sample.letterboxes.Reachable
    ∧ Sample.letterboxes.annotation .integer Vocabulary.defaultNamespace .forbidden (.start tokens)
      = .ok (.objectOf Sample.letterbox.typeId [.plain .callable], false) ⟨tokens.reverse, []⟩
    ∧ ¬ (Ty.objectOf Sample.letterbox.typeId [.plain .callable]).HasResults := by
  intro tokens
  refine ⟨Reachable.empty.addIfPossible _, Reading.eq_ok_of_success? (by decide +kernel),
    fun h ↦ ?_⟩
  have hresult := h [0] (.plain .callable) rfl rfl
  cases hresult

end Catalogue

end Pictograph
