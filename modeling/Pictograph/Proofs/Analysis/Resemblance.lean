import Pictograph.Analysis.Body
import Pictograph.Analysis.Creation
import Pictograph.Analysis.Conversion
import Pictograph.Analysis.Storage
import Pictograph.Analysis.Value
import Pictograph.Proofs.Catalogue.Nameless

/-!
# Settings that resemble one another

Two settings resemble one another if they differ at most in the names of fields and arguments, in
the slot limit and in whether variables are recommended to be frozen. What a construct finds out
about types and members is then the same in both, apart from the names, which it does not use.

## Main definitions

* `Setting.Resembles`: settings that differ in nothing but that.

## Main results

* `Setting.Resembles.fits_eq`, `Setting.Resembles.annotation_eq` and their companions: queries with
  the same answers.
* `Setting.Resembles.method?`, `Setting.Resembles.superclass?` and their companions: lookups that
  find the same.
-/

namespace Pictograph

/-- Members that differ in the names of their arguments alone. -/
def Member.Resembles (m m' : Member) : Prop := m'.nameless = m.nameless

/-- Classes that differ in the names of fields and arguments alone. -/
def Class.Resembles (c c' : Class) : Prop := c'.nameless = c.nameless

/-- Protocols that differ in the names of arguments alone. -/
def Protocol.Resembles (p p' : Protocol) : Prop := p'.nameless = p.nameless

/-- Settings that differ at most in the names of fields and arguments, in the slot limit and in
whether variables are recommended to be frozen. -/
structure Setting.Resembles (Γ Γ' : Setting) : Prop where
  catalogue : Γ'.catalogue.nameless = Γ.catalogue.nameless
  selfType : Γ'.selfType = Γ.selfType
  space : Γ'.space = Γ.space
  isStatic : Γ'.isStatic = Γ.isStatic
  result : Γ'.result = Γ.result
  initializer? : Γ'.initializer?.map (·.nameless) = Γ.initializer?.map (·.nameless)
  compilesDeadCode : Γ'.options.compilesDeadCode = Γ.options.compilesDeadCode

/-! ## Members, classes and protocols -/

namespace Member.Resembles

variable {m m' : Member}

theorem symbol (h : m.Resembles m') : m'.symbol = m.symbol := congrArg (·.symbol) h

theorem result (h : m.Resembles m') : m'.result = m.result := congrArg (·.result) h

theorem visibility (h : m.Resembles m') : m'.visibility = m.visibility := congrArg (·.visibility) h

theorem isRequired (h : m.Resembles m') : m'.isRequired = m.isRequired := congrArg (·.isRequired) h

theorem mayFail (h : m.Resembles m') : m'.mayFail = m.mayFail := congrArg (·.mayFail) h

theorem kind (h : m.Resembles m') : m'.kind = m.kind := congrArg (·.kind) h

theorem slot (h : m.Resembles m') : m'.slot = m.slot := congrArg (·.slot) h

theorem owner (h : m.Resembles m') : m'.owner = m.owner := congrArg (·.owner) h

theorem types (h : m.Resembles m') : m'.arguments.map (·.type) = m.arguments.map (·.type) := by
  rw [← m'.types_nameless, h, m.types_nameless]

end Member.Resembles

namespace Class.Resembles

variable {c c' : Class}

theorem superclass? (h : c.Resembles c') : c'.superclass? = c.superclass? :=
  congrArg (·.superclass?) h

theorem constraints (h : c.Resembles c') : c'.constraints = c.constraints :=
  congrArg (·.constraints) h

theorem index (h : c.Resembles c') : c'.index = c.index := congrArg (·.index) h

theorem selfType (h : c.Resembles c') : c'.selfType = c.selfType :=
  congrArg (·.selfType) h

end Class.Resembles

theorem Protocol.Resembles.index {p p' : Protocol} (h : p.Resembles p') : p'.index = p.index :=
  congrArg (·.index) h

/-- Options that are the same after a change hold values that are. -/
theorem rel_of_map_eq {α β : Type} {f : α → β} {a? b? : Option α}
    (h : b?.map f = a?.map f) : Option.Rel (fun a b ↦ f b = f a) a? b? := by
  cases a? with
  | none =>
    cases b? with
    | none => exact .none
    | some b => cases h
  | some a =>
    cases b? with
    | none => cases h
    | some b => exact .some (Option.some.inj h)

/-! ## Settings -/

namespace Setting.Resembles

variable {Γ Γ' : Setting}

theorem refl (Γ : Setting) : Γ.Resembles Γ := ⟨rfl, rfl, rfl, rfl, rfl, rfl, rfl⟩

/-! ### Queries with the same answer -/

theorem typeName_eq (h : Γ.Resembles Γ') (t : Ty) : Γ'.typeName t = Γ.typeName t := by
  rw [typeName, typeName, ← Catalogue.typeName_nameless, h.catalogue, Catalogue.typeName_nameless]

theorem fits_eq (h : Γ.Resembles Γ') (t u : Ty) :
    Γ'.catalogue.fits t u = Γ.catalogue.fits t u := by
  rw [← Catalogue.fits_nameless, h.catalogue, Catalogue.fits_nameless]

theorem joinNext_eq (h : Γ.Resembles Γ') (common? : Option Ty) (t : Ty) :
    Γ'.catalogue.joinNext common? t = Γ.catalogue.joinNext common? t := by
  rw [← Catalogue.joinNext_nameless, h.catalogue, Catalogue.joinNext_nameless]

theorem isEnumerable_eq (h : Γ.Resembles Γ') (t : Ty) :
    Γ'.catalogue.isEnumerable t = Γ.catalogue.isEnumerable t := by
  rw [← Catalogue.isEnumerable_nameless, h.catalogue, Catalogue.isEnumerable_nameless]

theorem descends_eq (h : Γ.Resembles Γ') (id ancestor : TypeId) :
    Γ'.catalogue.descends id ancestor = Γ.catalogue.descends id ancestor := by
  rw [← Catalogue.descends_nameless, h.catalogue, Catalogue.descends_nameless]

theorem enumValue?_eq (h : Γ.Resembles Γ') (t : Ty) (name : Symbol) :
    Γ'.catalogue.enumValue? t name = Γ.catalogue.enumValue? t name := by
  change Γ'.catalogue.nameless.enumValue? t name = Γ.catalogue.nameless.enumValue? t name
  rw [h.catalogue]

theorem dynamism_eq (h : Γ.Resembles Γ') : Γ'.dynamism = Γ.dynamism := by
  rw [dynamism, dynamism, h.isStatic]

theorem annotation_eq (h : Γ.Resembles Γ') (dynamism : Dynamism) :
    Analysis.annotation Γ' dynamism = Analysis.annotation Γ dynamism := by
  unfold Analysis.annotation
  rw [← Catalogue.annotation_nameless, h.catalogue,
    Catalogue.annotation_nameless, h.selfType, h.space]

theorem isSome_initializer? (h : Γ.Resembles Γ') :
    Γ'.initializer?.isSome = Γ.initializer?.isSome := by
  rw [← Option.isSome_map, h.initializer?, Option.isSome_map]

/-! ### Lookups -/

theorem class? (h : Γ.Resembles Γ') (id : TypeId) :
    Option.Rel Class.Resembles (Γ.catalogue.class? id) (Γ'.catalogue.class? id) :=
  rel_of_map_eq (by rw [← Catalogue.class?_nameless, h.catalogue, Catalogue.class?_nameless])

theorem protocol? (h : Γ.Resembles Γ') (id : TypeId) :
    Option.Rel Protocol.Resembles (Γ.catalogue.protocol? id) (Γ'.catalogue.protocol? id) :=
  rel_of_map_eq (by rw [← Catalogue.protocol?_nameless, h.catalogue, Catalogue.protocol?_nameless])

theorem classOf? (h : Γ.Resembles Γ') (t : Ty) :
    Option.Rel Class.Resembles (Γ.catalogue.classOf? t) (Γ'.catalogue.classOf? t) :=
  rel_of_map_eq (by rw [← Catalogue.classOf?_nameless, h.catalogue, Catalogue.classOf?_nameless])

theorem method? (h : Γ.Resembles Γ') (t : Ty) (symbol : Symbol) :
    Option.Rel Member.Resembles (Γ.catalogue.method? t symbol) (Γ'.catalogue.method? t symbol) :=
  rel_of_map_eq (by rw [← Catalogue.method?_nameless, h.catalogue, Catalogue.method?_nameless])

theorem classMethod? (h : Γ.Resembles Γ') (t : Ty) (symbol : Symbol) :
    Option.Rel Member.Resembles (Γ.catalogue.classMethod? t symbol)
      (Γ'.catalogue.classMethod? t symbol) :=
  rel_of_map_eq
    (by rw [← Catalogue.classMethod?_nameless, h.catalogue, Catalogue.classMethod?_nameless])

theorem lookupInitializer? (h : Γ.Resembles Γ') (t : Ty) (symbol : Symbol) :
    Option.Rel Member.Resembles (Γ.catalogue.initializer? t symbol)
      (Γ'.catalogue.initializer? t symbol) :=
  rel_of_map_eq
    (by rw [← Catalogue.initializer?_nameless, h.catalogue, Catalogue.initializer?_nameless])

theorem objectMethod? (h : Γ.Resembles Γ') (t : Ty) (symbol : Symbol) :
    Option.Rel Member.Resembles (Analysis.objectMethod? Γ t symbol)
      (Analysis.objectMethod? Γ' t symbol) := by
  rw [Analysis.objectMethod?, Analysis.objectMethod?]
  split
  · exact h.method? t symbol
  · exact .none

/-! ### The class of the body -/

theorem ownClass? (h : Γ.Resembles Γ') : Option.Rel Class.Resembles Γ.class? Γ'.class? := by
  rw [Setting.class?, Setting.class?, h.selfType]
  exact h.classOf? _

/-- What a class says about itself without its names is the same in both settings. -/
theorem bind_ownClass? (h : Γ.Resembles Γ') {α : Type} {f : Class → Option α}
    (hf : ∀ c c' : Class, c.Resembles c' → f c' = f c) : Γ'.class?.bind f = Γ.class?.bind f := by
  have hclass := h.ownClass?
  generalize Γ.class? = c?, Γ'.class? = c?' at hclass ⊢
  cases hclass with
  | none => rfl
  | some hc => exact hf _ _ hc

theorem hasSuperclass_eq (h : Γ.Resembles Γ') : Γ'.hasSuperclass = Γ.hasSuperclass := by
  have hclass := h.ownClass?
  rw [hasSuperclass, hasSuperclass]
  generalize Γ.class? = c?, Γ'.class? = c?' at hclass ⊢
  cases hclass with
  | none => rfl
  | some hc =>
    rw [Option.any_some, Option.any_some, hc.superclass?]

theorem superclass? (h : Γ.Resembles Γ') :
    Option.Rel Class.Resembles Γ.superclass? Γ'.superclass? := by
  rw [Setting.superclass?, Setting.superclass?, h.bind_ownClass? fun _ _ hc ↦ hc.superclass?]
  cases Γ.class?.bind (·.superclass?) with
  | none => exact .none
  | some id => exact h.class? id

theorem dispatchType_eq (h : Γ.Resembles Γ') (t : Ty) :
    Analysis.dispatchType Γ' t = Analysis.dispatchType Γ t := by
  rw [Analysis.dispatchType, Analysis.dispatchType]
  cases t.kind with
  | parameter index =>
    dsimp only
    rw [h.bind_ownClass? fun _ _ hc ↦ by rw [hc.constraints]]
  | _ => rfl

/-! ### Members -/

variable {m m' : Member}

theorem mayUse_eq (h : Γ.Resembles Γ') (hm : m.Resembles m') :
    Analysis.mayUse Γ' m' = Analysis.mayUse Γ m := by
  rw [Analysis.mayUse, Analysis.mayUse, hm.visibility, hm.owner, h.selfType]
  simp only [h.descends_eq]

theorem argumentTypes_eq (hm : m.Resembles m') (receiver : Ty) :
    Analysis.argumentTypes m' receiver = Analysis.argumentTypes m receiver := by
  have htypes : ∀ n : Member, Analysis.argumentTypes n receiver
      = (n.arguments.map (·.type)).map (Ty.resolve receiver) := fun n ↦ by
    rw [List.map_map]
    rfl
  rw [htypes, htypes, hm.types]

theorem requireAccess_eq (h : Γ.Resembles Γ') (hm : m.Resembles m') (span : Span) :
    Analysis.requireAccess Γ' m' span = Analysis.requireAccess Γ m span := by
  rw [Analysis.requireAccess, Analysis.requireAccess, h.mayUse_eq hm, hm.kind, hm.symbol,
    hm.visibility]

theorem noSuchMethod_eq (h : Γ.Resembles Γ') (t : Ty) (method : Symbol) :
    Analysis.noSuchMethod Γ' t method = Analysis.noSuchMethod Γ t method := by
  rw [Analysis.noSuchMethod, Analysis.noSuchMethod, h.typeName_eq]

theorem hasWidestArguments_eq (h : Γ.Resembles Γ') (t : Ty) {c c' : Class} (hc : c.Resembles c') :
    Analysis.hasWidestArguments Γ' t c' = Analysis.hasWidestArguments Γ t c := by
  rw [Analysis.hasWidestArguments, Analysis.hasWidestArguments, hc.constraints]
  simp only [h.fits_eq]

theorem elementType?_eq (h : Γ.Resembles Γ') (t : Ty) :
    Analysis.elementType? Γ' t = Analysis.elementType? Γ t := by
  have hclass := h.classOf? t
  have hsingle : (Γ'.catalogue.classOf? t).any (·.constraints.length == 1)
      = (Γ.catalogue.classOf? t).any (·.constraints.length == 1) := by
    generalize Γ.catalogue.classOf? t = c?, Γ'.catalogue.classOf? t = c?' at hclass ⊢
    cases hclass with
    | none => rfl
    | some hc => rw [Option.any_some, Option.any_some, hc.constraints]
  rw [Analysis.elementType?, Analysis.elementType?, h.isEnumerable_eq, hsingle]

end Setting.Resembles

end Pictograph
