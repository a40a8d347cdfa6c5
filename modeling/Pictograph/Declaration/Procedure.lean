import Pictograph.Ty.Basic

/-!
# Procedures

The signature side of methods, class methods and initializers: all that is needed to check a call
and to write its dispatch operands. A *procedure* is what a declaration says. A *member* is a
procedure that a type was registered with; it knows its kind, its owner and its place in the
dispatch table.
-/

namespace Pictograph

/-- Who may use a member. -/
inductive Visibility where
  /-- Everybody. -/
  | everyone
  /-- The owner and its descendants. -/
  | descendants
  /-- The owner alone. -/
  | owner
deriving DecidableEq

/-- The word for a visibility in messages. -/
def Visibility.text : Visibility → String
  | everyone => "public"
  | descendants => "protected"
  | owner => "private"

/-- A named argument of a procedure or a closure. -/
structure Argument where
  /-- The variable the body refers to it by. -/
  name : String
  /-- Its declared type. -/
  type : Ty
deriving DecidableEq

/-- The declaration of a method, a class method or an initializer, without its body. -/
structure Procedure where
  /-- The name. -/
  symbol : Symbol
  /-- The arguments, in order. -/
  arguments : List Argument := []
  /-- The type of the value that is returned. -/
  result : Ty := .nothingness
  /-- Who may call it. -/
  visibility : Visibility := .everyone
  /-- Whether the host implements it; such a procedure has no body. -/
  isNative : Bool := false
  /-- Whether every subclass inherits it as an initializer. -/
  isRequired : Bool := false
  /-- Whether it is an initializer that may end with nothingness instead of an instance. -/
  mayFail : Bool := false
deriving DecidableEq

/-- The three sorts of procedure. -/
inductive Procedure.Kind where
  | method
  | classMethod
  | initializer
deriving DecidableEq

/-- The word for a sort of procedure in messages. -/
def Procedure.Kind.text : Procedure.Kind → String
  | method => "method"
  | classMethod => "class method"
  | initializer => "initializer"

/-- A procedure that belongs to a registered type. -/
structure Member extends Procedure where
  /-- The sort of procedure. -/
  kind : Procedure.Kind
  /-- The position in the dispatch table of its sort. -/
  slot : Nat
  /-- The type that declares it. -/
  owner : TypeId
deriving DecidableEq

end Pictograph
