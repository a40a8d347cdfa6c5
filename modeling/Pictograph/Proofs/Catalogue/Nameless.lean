import Pictograph.Catalogue.Annotation
import Pictograph.Catalogue.Join
import Pictograph.Catalogue.Members
import Pictograph.Declaration.Types

/-!
# Names that the catalogue does not use

The catalogue keeps the names of fields and of arguments, because bodies refer to them. No query
depends on them: neither lookups nor the relations between types nor annotations. So a catalogue
answers as it does without these names.

## Main definitions

* `Catalogue.nameless`: a catalogue without the names of fields and arguments.

## Main results

* `Catalogue.class?_nameless`, `Catalogue.method?_nameless` and their companions: lookups find the
  same, apart from the names.
* `Catalogue.fits_nameless`, `Catalogue.typeName_nameless`, `Catalogue.annotation_nameless` and
  their companions: queries about types have the same answers.
-/

namespace Pictograph

/-! ## Leaving out names -/

/-- An argument without its name. -/
def Argument.nameless (a : Argument) : Argument := { a with name := "" }

/-- A field without its name. -/
def Field.nameless (f : Field) : Field := { f with name := "" }

/-- A procedure without the names of its arguments. -/
def Procedure.nameless (p : Procedure) : Procedure :=
  { p with arguments := p.arguments.map (·.nameless) }

/-- A member without the names of its arguments. -/
def Member.nameless (m : Member) : Member := { m with toProcedure := m.toProcedure.nameless }

/-- A class without the names of its fields and of the arguments of its members. -/
def Class.nameless (c : Class) : Class :=
  { c with
    fields := c.fields.map (·.nameless)
    methods := c.methods.map (·.nameless)
    classMethods := c.classMethods.map (·.nameless)
    initializers := c.initializers.map (·.nameless) }

/-- A protocol without the names of the arguments of its methods. -/
def Protocol.nameless (p : Protocol) : Protocol :=
  { p with methods := p.methods.map (·.nameless) }

/-- A catalogue without the names of fields and arguments. -/
def Catalogue.nameless (cat : Catalogue) : Catalogue where
  latestClasses := cat.latestClasses.map (·.nameless)
  latestProtocols := cat.latestProtocols.map (·.nameless)
  latestEnumerations := cat.latestEnumerations

/-- The types of the arguments are kept. -/
theorem Member.types_nameless (m : Member) :
    m.nameless.arguments.map (·.type) = m.arguments.map (·.type) := List.map_map

theorem Member.named?_nameless (members : List Member) (symbol : Symbol) :
    Member.named? (members.map (·.nameless)) symbol
      = (Member.named? members symbol).map (·.nameless) :=
  List.find?_map

namespace Class

variable (c : Class) (kind : Procedure.Kind)

theorem members_nameless : c.nameless.members kind = (c.members kind).map (·.nameless) := by
  cases kind <;> rfl

theorem own?_nameless (symbol : Symbol) :
    c.nameless.own? kind symbol = (c.own? kind symbol).map (·.nameless) := by
  rw [own?, own?, members_nameless, Member.named?_nameless]

end Class

namespace Catalogue

variable (cat : Catalogue) (id : TypeId) (t u : Ty) (symbol : Symbol)

/-! ## Lookups -/

theorem class?_nameless : cat.nameless.class? id = (cat.class? id).map (·.nameless) :=
  List.find?_map

theorem protocol?_nameless : cat.nameless.protocol? id = (cat.protocol? id).map (·.nameless) :=
  List.find?_map

theorem classOf?_nameless : cat.nameless.classOf? t = (cat.classOf? t).map (·.nameless) := by
  rw [classOf?, classOf?]
  cases t.objectId? with
  | none => rfl
  | some id => exact cat.class?_nameless id

theorem named?_nameless (space name : Symbol) :
    cat.nameless.named? space name = cat.named? space name := by
  rw [named?, named?, class?_nameless, protocol?_nameless, Option.isSome_map, Option.isSome_map]
  rfl

theorem lineageIn_nameless (classes : List Class) :
    lineageIn (classes.map (·.nameless)) id = (lineageIn classes id).map (·.nameless) := by
  induction classes generalizing id with
  | nil => rfl
  | cons c classes ih =>
    rw [List.map_cons, lineageIn, lineageIn]
    by_cases hid : c.id = id
    · rw [if_pos hid, if_pos (show c.nameless.id = id from hid), List.map_cons]
      rw [show c.nameless.superclass? = c.superclass? from rfl]
      cases c.superclass? with
      | none => rfl
      | some parent => exact congrArg _ (ih parent)
    · rw [if_neg hid, if_neg (show ¬c.nameless.id = id from hid), ih]

theorem lineage_nameless : cat.nameless.lineage id = (cat.lineage id).map (·.nameless) :=
  lineageIn_nameless id cat.latestClasses

theorem nearest?_nameless (kind : Procedure.Kind) :
    cat.nameless.nearest? kind id symbol = (cat.nearest? kind id symbol).map (·.nameless) := by
  rw [nearest?, nearest?, lineage_nameless, List.findSome?_map]
  induction cat.lineage id with
  | nil => rfl
  | cons c lineage ih =>
    rw [List.findSome?_cons, List.findSome?_cons, Function.comp_apply, Class.own?_nameless]
    cases c.own? kind symbol with
    | none => exact ih
    | some m => rfl

theorem method?_nameless :
    cat.nameless.method? t symbol = (cat.method? t symbol).map (·.nameless) := by
  rw [method?, method?]
  cases t.kind with
  | object id => exact cat.nearest?_nameless id symbol .method
  | protocol id =>
    dsimp only
    rw [protocol?_nameless]
    cases cat.protocol? id with
    | none => rfl
    | some p => exact Member.named?_nameless p.methods symbol
  | _ => rfl

theorem classMethod?_nameless :
    cat.nameless.classMethod? t symbol = (cat.classMethod? t symbol).map (·.nameless) := by
  rw [classMethod?, classMethod?]
  cases t.objectId? with
  | none => rfl
  | some id => exact cat.nearest?_nameless id symbol .classMethod

theorem initializer?_nameless :
    cat.nameless.initializer? t symbol = (cat.initializer? t symbol).map (·.nameless) := by
  rw [initializer?, initializer?]
  cases t.objectId? with
  | none => rfl
  | some id =>
    rw [Option.map_some, Option.map_some, lineage_nameless]
    cases cat.lineage id with
    | nil => rfl
    | cons c ancestors =>
      have hancestors : (ancestors.map (·.nameless)).filterMap (·.own? .initializer symbol)
          = (ancestors.filterMap (·.own? .initializer symbol)).map (·.nameless) := by
        rw [List.filterMap_map, List.map_filterMap]
        exact congrArg (List.filterMap · ancestors) (funext fun d ↦ d.own?_nameless _ symbol)
      rw [List.map_cons]
      dsimp only
      rw [Class.own?_nameless, hancestors, List.find?_map]
      cases c.own? .initializer symbol with
      | none => rfl
      | some m => rfl

/-! ## Relations between types -/

theorem descends_nameless (ancestor : TypeId) :
    cat.nameless.descends id ancestor = cat.descends id ancestor := by
  rw [descends, descends, lineage_nameless, List.any_map]
  rfl

theorem conforms_nameless (protocol : TypeId) :
    cat.nameless.conforms id protocol = cat.conforms id protocol := by
  rw [conforms, conforms, lineage_nameless, List.any_map]
  rfl

theorem isEnumerable_nameless : cat.nameless.isEnumerable t = cat.isEnumerable t := by
  rw [isEnumerable, isEnumerable]
  cases t.kind with
  | object id => exact cat.conforms_nameless id _
  | _ => rfl

theorem fitsGiven_nameless (callables : Bool) :
    cat.nameless.fitsGiven t u callables = cat.fitsGiven t u callables := by
  have hkind : cat.nameless.fitsKind t u callables = cat.fitsKind t u callables := by
    simp only [fitsKind, descends_nameless, conforms_nameless]
  rw [fitsGiven, fitsGiven, hkind]

mutual

theorem fitsTurned_nameless (turned : Bool) :
    (t u : Ty) → fitsTurned cat.nameless turned t u = fitsTurned cat turned t u
  | ⟨_, _, ts⟩, u => by
    rw [fitsTurned, fitsTurned, signatureFits_nameless turned ts u.arguments]
    simp only [fitsGiven_nameless]

theorem signatureFits_nameless (turned : Bool) :
    (ts us : List Ty) → signatureFits cat.nameless turned ts us = signatureFits cat turned ts us
  | [], _ | _ :: _, [] => by simp only [signatureFits]
  | t :: ts, u :: us => by
    rw [signatureFits, signatureFits, fitsTurned_nameless turned t u,
      allFit_nameless (!turned) ts us]

theorem allFit_nameless (turned : Bool) :
    (ts us : List Ty) → allFit cat.nameless turned ts us = allFit cat turned ts us
  | [], [] | [], _ :: _ | _ :: _, [] => by simp only [allFit]
  | t :: ts, u :: us => by
    rw [allFit, allFit, fitsTurned_nameless turned t u, allFit_nameless turned ts us]

end

theorem fits_nameless : cat.nameless.fits t u = cat.fits t u := cat.fitsTurned_nameless false t u

theorem joinObjects_nameless (left right : TypeId) :
    cat.nameless.joinObjects t u left right = cat.joinObjects t u left right := by
  have hfind : (cat.nameless.lineage left).find? (fun c ↦ cat.nameless.descends right c.id)
      = ((cat.lineage left).find? fun c ↦ cat.descends right c.id).map (·.nameless) := by
    simp only [lineage_nameless, descends_nameless]
    exact List.find?_map
  rw [joinObjects, joinObjects, hfind]
  cases (cat.lineage left).find? fun c ↦ cat.descends right c.id <;> rfl

theorem joinNext_nameless (common? : Option Ty) :
    cat.nameless.joinNext common? t = cat.joinNext common? t := by
  cases common? with
  | none => rfl
  | some common => simp only [joinNext, join, fits_nameless, joinObjects_nameless]

/-! ## Names of types and annotations -/

theorem kindName_nameless (kind : Ty.Kind) : cat.nameless.kindName kind = cat.kindName kind := by
  cases kind with
  | object id =>
    rw [kindName, kindName, class?_nameless]
    cases cat.class? id <;> rfl
  | protocol id =>
    rw [kindName, kindName, protocol?_nameless]
    cases cat.protocol? id <;> rfl
  | _ => rfl

mutual

theorem typeName_nameless : (t : Ty) → cat.nameless.typeName t = cat.typeName t
  | ⟨_, _, ts⟩ => by
    unfold typeName
    rw [typeNames_nameless ts]
    simp only [kindName_nameless]

theorem typeNames_nameless : (ts : List Ty) → cat.nameless.typeNames ts = cat.typeNames ts
  | [] => rfl
  | t :: ts => by rw [typeNames, typeNames, typeName_nameless t, typeNames_nameless ts]

end

theorem namedAnnotation_nameless (read : Reading Ty) (space name : Symbol) (span : Span) :
    cat.nameless.namedAnnotation read space name span
      = cat.namedAnnotation read space name span := by
  unfold namedAnnotation
  rw [named?_nameless]
  cases cat.named? space name with
  | none => rfl
  | some t =>
    simp only [classOf?_nameless, typeName_nameless]
    cases cat.classOf? t <;> rfl

theorem annotationWithin_nameless (context : Ty) (fuel : Nat) (space : Symbol)
    (dynamism : Dynamism) :
    cat.nameless.annotationWithin context fuel space dynamism
      = cat.annotationWithin context fuel space dynamism := by
  induction fuel generalizing space dynamism with
  | zero => rfl
  | succ fuel ih =>
    simp only [annotationWithin, ih, namedAnnotation_nameless]

/-- **Annotations are read without the names of fields and arguments.** -/
theorem annotation_nameless (context : Ty) (space : Symbol) (dynamism : Dynamism) :
    cat.nameless.annotation context space dynamism = cat.annotation context space dynamism := by
  unfold annotation
  simp only [annotationWithin_nameless]

end Catalogue

end Pictograph
