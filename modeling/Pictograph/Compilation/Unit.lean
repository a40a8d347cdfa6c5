import Pictograph.Compilation.Procedure

/-!
# Compilation units

A unit collects the bodies of procedures and compiles them into a program. A class of which it has
one body is compiled whole: every procedure of it that the host does not implement needs a body. All
bodies of a unit share one string table and one list of warnings.

A unit is built while it holds a program. Adding a body drops the program, because it would not be
that of the bodies any more.
-/

namespace Pictograph

/-! ## Programs -/

/-- A compiled procedure and the class that declares it. -/
structure CompiledMember where
  /-- The class. -/
  owner : TypeId
  /-- The procedure. -/
  record : Record
deriving DecidableEq

/-- What a unit is compiled into. -/
structure Program where
  /-- The procedures: classes in table order, and within a class methods, class methods and
  initializers, each in declaration order. -/
  procedures : List CompiledMember
  /-- The string literals, at the positions the code refers to. -/
  strings : List String
  /-- The warnings in the order they were given. -/
  warnings : List Warning
deriving DecidableEq

namespace Program

/-- The compiled procedures of a class. -/
def proceduresOf (p : Program) (owner : TypeId) : List Record :=
  (p.procedures.filter (·.owner == owner)).map (·.record)

/-- The compiled procedure of a class, a sort and a name. -/
def find? (p : Program) (owner : TypeId) (kind : Procedure.Kind) (symbol : Symbol) :
    Option Record :=
  (p.proceduresOf owner).find? fun r ↦ r.header.kind == kind && r.header.symbol == symbol

end Program

/-! ## Errors -/

/-- A procedure as messages refer to it. -/
structure ProcedureName where
  /-- The name of the class. -/
  className : Symbol
  /-- The sort of procedure. -/
  kind : Procedure.Kind
  /-- The name. -/
  symbol : Symbol
deriving DecidableEq

/-- The name of a procedure in front of its class. -/
def ProcedureName.text (p : ProcedureName) : String :=
  s!"{p.kind.text} {p.symbol.text} of {p.className.text}"

/-- Why a unit refuses a body or cannot be built. -/
inductive UnitError where
  /-- No class has this identity. -/
  | unknownClass (id : TypeId)
  /-- The class does not declare the procedure. -/
  | unknownProcedure (procedure : ProcedureName)
  /-- The procedure has a body already. -/
  | duplicateBody (procedure : ProcedureName)
  /-- The procedure has no body but needs one. -/
  | missingBody (procedure : ProcedureName)
  /-- The host implements the procedure. -/
  | nativeBody (procedure : ProcedureName)
  /-- The body is rejected. -/
  | rejected (procedure : ProcedureName) (diagnostic : Diagnostic)
  /-- The analysis of the body broke off without a diagnosis. -/
  | broken (procedure : ProcedureName)
deriving DecidableEq

/-- The message of an error. -/
def UnitError.message : UnitError → String
  | unknownClass id => s!"class not found: {id.text}"
  | unknownProcedure p => s!"{p.className.text} has no {p.kind.text} {p.symbol.text}"
  | duplicateBody p => s!"{p.text} already has a body"
  | missingBody p => s!"{p.text} has no body"
  | nativeBody p => s!"{p.text} is native and cannot have a body"
  | rejected p diagnostic => s!"in {p.text}: {diagnostic.message}"
  | broken p => s!"in {p.text}: analysis broke off"

/-- The error of a procedure whose compilation failed. -/
def UnitError.ofFault (p : ProcedureName) : Fault → UnitError
  | .diagnosed diagnostic => .rejected p diagnostic
  | .misfilled | .overflowed | .exhausted => .broken p

/-! ## Units -/

/-- The body of one procedure. -/
structure Body where
  /-- The class that declares the procedure. -/
  owner : TypeId
  /-- The sort of procedure. -/
  kind : Procedure.Kind
  /-- The name. -/
  symbol : Symbol
  /-- The tokens, up to and including the end of the body. -/
  tokens : List Token
deriving DecidableEq

/-- A set of bodies to be compiled together. -/
structure CompilationUnit where
  /-- The declared types. -/
  catalogue : Catalogue
  /-- The switches for every body. -/
  options : Options := {}
  /-- The bodies, no two of them of one procedure. -/
  bodies : List Body := []
  /-- The program of the bodies, if the last build succeeded and no body was added since. -/
  program? : Option Program := none

namespace CompilationUnit

/-- Whether the program of the bodies is at hand. -/
def isBuilt (u : CompilationUnit) : Bool := u.program?.isSome

/-- The body of a procedure. -/
def body? (u : CompilationUnit) (owner : TypeId) (kind : Procedure.Kind) (symbol : Symbol) :
    Option Body :=
  u.bodies.find? fun b ↦ b.owner == owner && b.kind == kind && b.symbol == symbol

/-- Whether a class has a body. -/
def hasBodyOf (u : CompilationUnit) (owner : TypeId) : Bool :=
  u.bodies.any (·.owner == owner)

/-- Adds the body of a procedure. The procedure must be declared, must not be native and must not
have a body already. -/
def addBody (u : CompilationUnit) (b : Body) : Except UnitError CompilationUnit :=
  match u.catalogue.class? b.owner with
  | none => .error (.unknownClass b.owner)
  | some c =>
    let procedure : ProcedureName := ⟨c.name, b.kind, b.symbol⟩
    match c.own? b.kind b.symbol with
    | none => .error (.unknownProcedure procedure)
    | some m =>
      if m.isNative then
        .error (.nativeBody procedure)
      else if (u.body? b.owner b.kind b.symbol).isSome then
        .error (.duplicateBody procedure)
      else
        .ok { u with bodies := u.bodies ++ [b], program? := none }

/-- The procedures to be compiled, each with its class: all those of the classes that have a
body. -/
def members (u : CompilationUnit) : List (Class × Member) :=
  (u.catalogue.classes.filter (u.hasBodyOf ·.id)).flatMap fun c ↦ c.allMembers.map (c, ·)

/-- Compiles one procedure. A native one needs no body. -/
def compileMember (u : CompilationUnit) (session : Session) (c : Class) (m : Member) :
    Except UnitError (CompiledMember × Session) :=
  let procedure : ProcedureName := ⟨c.name, m.kind, m.symbol⟩
  let tokens? := match u.body? c.id m.kind m.symbol with
    | some b => some b.tokens
    | none => if m.isNative then some [] else none
  match tokens? with
  | none => .error (.missingBody procedure)
  | some tokens =>
    match compile u.catalogue u.options session c m tokens with
    | (.ok record, session) => .ok (⟨c.id, record⟩, session)
    | (.error fault, _) => .error (.ofFault procedure fault)

/-- Compiles procedures one after the other. The first one that fails ends the compilation. -/
def compileMembers (u : CompilationUnit) (session : Session) :
    List (Class × Member) → Except UnitError (List CompiledMember × Session)
  | [] => .ok ([], session)
  | (c, m) :: rest => do
    let (compiled, session) ← u.compileMember session c m
    let (others, session) ← u.compileMembers session rest
    return (compiled :: others, session)

/-- The program of the bodies. -/
def compileProgram (u : CompilationUnit) : Except UnitError Program := do
  let (procedures, session) ← u.compileMembers .start u.members
  let (strings, warnings, _) := session.finish
  return ⟨procedures, strings, warnings⟩

/-- Builds the program. A build that fails leaves the unit without a program. -/
def build (u : CompilationUnit) : Except UnitError Program × CompilationUnit :=
  let result := u.compileProgram
  (result, { u with program? := result.toOption })

end CompilationUnit

end Pictograph
