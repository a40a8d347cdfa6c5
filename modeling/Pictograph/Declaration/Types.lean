import Pictograph.Declaration.Procedure

/-!
# Type declarations

Classes, protocols and enumerations, as they are declared and as the catalogue keeps them. The two
forms of a class share their `ClassHead`; registration turns the procedures of the declaration into
members and adds the index of the class and the sizes of its dispatch tables.
-/

namespace Pictograph

/-! ## Classes -/

/-- An instance variable. -/
structure Field where
  /-- The name. -/
  name : String
  /-- The declared type. -/
  type : Ty
deriving DecidableEq

/-- What a class is, apart from its procedures. -/
structure ClassHead where
  /-- The namespace the class is declared in. -/
  space : Symbol
  /-- The name. -/
  name : Symbol
  /-- The class it inherits from. -/
  superclass? : Option TypeId := none
  /-- The protocols it declares to conform to. -/
  protocols : List TypeId := []
  /-- The constraint of each generic parameter. -/
  constraints : List Ty := []
  /-- The instance variables it adds to those it inherits. -/
  fields : List Field := []
deriving DecidableEq

/-- The identity that follows from namespace and name. -/
def ClassHead.typeId (c : ClassHead) : TypeId := .of c.space c.name

/-- The declaration of a class. -/
structure ClassDeclaration extends ClassHead where
  /-- Procedures called on instances. -/
  methods : List Procedure := []
  /-- Procedures called on the class. -/
  classMethods : List Procedure := []
  /-- Procedures that set up a new instance. -/
  initializers : List Procedure := []
deriving DecidableEq

/-- How many positions the dispatch tables of a class have. -/
structure TableSizes where
  /-- Positions for methods. -/
  methods : Nat := 0
  /-- Positions for class methods. -/
  classMethods : Nat := 0
  /-- Positions for initializers. -/
  initializers : Nat := 0
deriving DecidableEq

/-- A registered class. -/
structure Class extends ClassHead where
  /-- The identity. -/
  id : TypeId
  /-- The position in the class table. -/
  index : Nat
  /-- The methods it declares. -/
  methods : List Member
  /-- The class methods it declares. -/
  classMethods : List Member
  /-- The initializers it declares. -/
  initializers : List Member
  /-- The sizes of its dispatch tables, inherited positions included. -/
  tables : TableSizes
deriving DecidableEq

/-- The first member called `symbol`. -/
def Member.named? (members : List Member) (symbol : Symbol) : Option Member :=
  members.find? (·.symbol == symbol)

namespace Class

/-- The members of one sort that the class declares itself. -/
def members (c : Class) : Procedure.Kind → List Member
  | .method => c.methods
  | .classMethod => c.classMethods
  | .initializer => c.initializers

/-- The member of a sort that the class declares itself under a name. -/
def own? (c : Class) (kind : Procedure.Kind) (symbol : Symbol) : Option Member :=
  Member.named? (c.members kind) symbol

/-- Every procedure the class declares: methods, class methods, initializers. -/
def allMembers (c : Class) : List Member :=
  c.methods ++ c.classMethods ++ c.initializers

/-- Whether the class has generic parameters. -/
def isGeneric (c : Class) : Bool := !c.constraints.isEmpty

/-- The type of the instances inside the class, its generic parameters standing for themselves. -/
def selfType (c : Class) : Ty :=
  .objectOf c.id ((List.range c.constraints.length).map Ty.parameter)

end Class

/-! ## Protocols -/

/-- The declaration of a protocol. -/
structure ProtocolDeclaration where
  /-- The namespace the protocol is declared in. -/
  space : Symbol
  /-- The name. -/
  name : Symbol
  /-- The methods a conforming class has. -/
  methods : List Procedure := []
deriving DecidableEq

/-- The identity that follows from namespace and name. -/
def ProtocolDeclaration.typeId (p : ProtocolDeclaration) : TypeId := .of p.space p.name

/-- A registered protocol. -/
structure Protocol where
  /-- The namespace the protocol is declared in. -/
  space : Symbol
  /-- The name. -/
  name : Symbol
  /-- The identity. -/
  id : TypeId
  /-- The position in the protocol table. -/
  index : Nat
  /-- The methods. -/
  methods : List Member
deriving DecidableEq

/-! ## Enumerations -/

/-- A value of an enumeration and the number that stands for it. -/
structure EnumValue where
  /-- The name. -/
  name : Symbol
  /-- The number. -/
  number : UInt64
deriving DecidableEq

/-- An enumeration, declared or registered. -/
structure Enumeration where
  /-- The namespace the enumeration is declared in. -/
  space : Symbol
  /-- The name. -/
  name : Symbol
  /-- The values, in declaration order. -/
  values : List EnumValue := []
deriving DecidableEq

namespace Enumeration

/-- The identity that follows from namespace and name. -/
def typeId (e : Enumeration) : TypeId := .of e.space e.name

/-- Adds a value numbered after the last one, or zero if it is the first. -/
def withNext (e : Enumeration) (name : Symbol) : Enumeration :=
  let number := match e.values.getLast? with
    | some last => last.number + 1
    | none => 0
  { e with values := e.values ++ [⟨name, number⟩] }

/-- Adds a value with a number of its own. -/
def withNumber (e : Enumeration) (name : Symbol) (number : UInt64) : Enumeration :=
  { e with values := e.values ++ [⟨name, number⟩] }

/-- The number of the first value called `name`. -/
def number? (e : Enumeration) (name : Symbol) : Option UInt64 :=
  (e.values.find? (·.name == name)).map (·.number)

end Enumeration

end Pictograph
