import Pictograph.Catalogue.Members

/-!
# Registration

Registering a type checks its declaration against the catalogue and numbers its members. A class
takes over the slots of the members it overrides and appends the others to the dispatch tables it
inherits, so a slot found on an ancestor is valid on every descendant. A declaration that is refused
leaves no trace: registration returns the new catalogue or the reason.
-/

namespace Pictograph

/-- Why a declaration is refused. -/
inductive RegistrationError where
  /-- The declaration refers to a type that is not registered. -/
  | typeNotFound (what : String)
  /-- The name is taken. -/
  | duplicateType (name : String)
  /-- A type declares two members of one sort under one name. -/
  | duplicateMember (typeName member : String)
  /-- The declaration makes no sense. -/
  | invalidDeclaration (reason : String)
deriving DecidableEq

/-- The message of a refusal. -/
def RegistrationError.message : RegistrationError → String
  | typeNotFound what => s!"type not found: {what}"
  | duplicateType name => s!"duplicate type: {name}"
  | duplicateMember typeName member =>
    s!"duplicate member: '{member}' already declared on '{typeName}'"
  | invalidDeclaration reason => s!"invalid declaration: {reason}"

namespace Catalogue

/-! ## Checks -/

/-- The first symbol that occurs a second time. -/
def firstRepeated (seen : List Symbol) : List Symbol → Option Symbol
  | [] => none
  | s :: rest => if s ∈ seen then some s else firstRepeated (s :: seen) rest

/-- Refuses member names of which one occurs twice. -/
def requireDistinct (typeName : Symbol) (names : List Symbol) : Except RegistrationError Unit :=
  match firstRepeated [] names with
  | some s => throw (.duplicateMember typeName.text s.text)
  | none => pure ()

/-- Refuses an identity that is taken. -/
def requireFree (cat : Catalogue) (id : TypeId) (name : Symbol) : Except RegistrationError Unit :=
  if cat.contains id then throw (.duplicateType name.text) else pure ()

/-- Refuses protocols that are not registered. -/
def requireProtocols (cat : Catalogue) (name : Symbol) :
    List TypeId → Except RegistrationError Unit
  | [] => pure ()
  | id :: rest =>
    if (cat.protocol? id).isSome then
      requireProtocols cat name rest
    else
      throw (.typeNotFound s!"protocol {id.text} conformed to by {name.text}")

/-! ## Numbering -/

/-- Turns procedures into members. One that overrides a member takes its slot, every other one the
next free slot. Returns the members and the next free slot after them. -/
def number (overridden? : Symbol → Option Member) (kind : Procedure.Kind) (owner : TypeId) :
    Nat → List Procedure → List Member × Nat
  | next, [] => ([], next)
  | next, p :: rest =>
    match overridden? p.symbol with
    | some o =>
      let (members, last) := number overridden? kind owner next rest
      ({ p with kind, slot := o.slot, owner } :: members, last)
    | none =>
      let (members, last) := number overridden? kind owner (next + 1) rest
      ({ p with kind, slot := next, owner } :: members, last)

/-! ## The three kinds of declaration -/

/-- Registers a class. Its superclass and its protocols have to be registered already. -/
def addClass (cat : Catalogue) (d : ClassDeclaration) : Except RegistrationError Catalogue := do
  let id := d.typeId
  cat.requireFree id d.name
  let inherited : TableSizes ← match d.superclass? with
    | some parent =>
      match cat.class? parent with
      | some c => pure c.tables
      | none => throw (.typeNotFound s!"superclass of {d.name.text}")
    | none => pure {}
  cat.requireProtocols d.name d.protocols
  requireDistinct d.name (d.methods.map (·.symbol))
  requireDistinct d.name (d.classMethods.map (·.symbol))
  requireDistinct d.name (d.initializers.map (·.symbol))
  let overridden? kind symbol := d.superclass?.bind (cat.nearest? kind · symbol)
  let (methods, nextMethod) := number (overridden? .method) .method id inherited.methods d.methods
  let (classMethods, nextClassMethod) :=
    number (overridden? .classMethod) .classMethod id inherited.classMethods d.classMethods
  let (initializers, nextInitializer) :=
    number (overridden? .initializer) .initializer id inherited.initializers d.initializers
  let entry : Class := { d.toClassHead with
    id
    index := cat.latestClasses.length
    methods
    classMethods
    initializers
    tables := ⟨nextMethod, nextClassMethod, nextInitializer⟩ }
  return { cat with latestClasses := entry :: cat.latestClasses }

/-- Registers a protocol. Its methods are numbered in declaration order. -/
def addProtocol (cat : Catalogue) (d : ProtocolDeclaration) :
    Except RegistrationError Catalogue := do
  let id := d.typeId
  cat.requireFree id d.name
  requireDistinct d.name (d.methods.map (·.symbol))
  let entry : Protocol := {
    space := d.space
    name := d.name
    id
    index := cat.latestProtocols.length
    methods := (number (fun _ ↦ none) .method id 0 d.methods).1 }
  return { cat with latestProtocols := entry :: cat.latestProtocols }

/-- Registers an enumeration. -/
def addEnumeration (cat : Catalogue) (e : Enumeration) : Except RegistrationError Catalogue := do
  cat.requireFree e.typeId e.name
  requireDistinct e.name (e.values.map (·.name))
  return { cat with latestEnumerations := e :: cat.latestEnumerations }

end Catalogue

/-- A declaration of any kind. -/
inductive Declaration where
  | ofClass (declaration : ClassDeclaration)
  | ofProtocol (declaration : ProtocolDeclaration)
  | ofEnumeration (declaration : Enumeration)

/-- The identity of the declared type. -/
def Declaration.typeId : Declaration → TypeId
  | ofClass d => d.typeId
  | ofProtocol d => d.typeId
  | ofEnumeration e => e.typeId

/-- Registers a type. -/
def Catalogue.add (cat : Catalogue) : Declaration → Except RegistrationError Catalogue
  | .ofClass d => cat.addClass d
  | .ofProtocol d => cat.addProtocol d
  | .ofEnumeration e => cat.addEnumeration e

end Pictograph
