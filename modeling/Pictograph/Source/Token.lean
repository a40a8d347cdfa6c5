import Pictograph.Construct
import Pictograph.Source.Span

/-!
# Tokens

A body is a list of tokens; reading characters is somebody else's work. A token is a lexeme at a
place. Literals carry their value: strings with their escapes resolved, integers as 64-bit numbers,
floating point numbers as bit patterns.
-/

namespace Pictograph

/-- What a token says, without its place. -/
inductive Lexeme where
  | string (content : String)
  | boolean (value : Bool)
  | integer (value : Int64)
  /-- A floating point number, as the bits of its binary form. -/
  | double (bits : UInt64)
  | symbol (value : Symbol)
  /-- A variable, by name. -/
  | reference (name : String)
  | identifier (name : Symbol)
  | argumentsOpen
  | argumentsClose
  | comment (text : String)
deriving DecidableEq

/-- The kinds of lexemes a construct can ask for. -/
inductive Category where
  | string
  | boolean
  | integer
  | double
  | symbol
  | reference
  | identifier
  | argumentsOpen
  | argumentsClose
  | comment
deriving DecidableEq

/-- The name of a category in messages. -/
def Category.text : Category → String
  | string => "string"
  | boolean => "boolean"
  | integer => "integer"
  | double => "double"
  | symbol => "symbol"
  | reference => "variable"
  | identifier => "identifier"
  | argumentsOpen => "argument bracket open"
  | argumentsClose => "argument bracket close"
  | comment => "documentation comment"

namespace Lexeme

/-- The category of a lexeme. -/
def category : Lexeme → Category
  | string _ => .string
  | boolean _ => .boolean
  | integer _ => .integer
  | double _ => .double
  | symbol _ => .symbol
  | reference _ => .reference
  | identifier _ => .identifier
  | argumentsOpen => .argumentsOpen
  | argumentsClose => .argumentsClose
  | comment _ => .comment

/-- The description of a lexeme in messages: its category, and which identifier or variable. -/
def describe : Lexeme → String
  | identifier name => "identifier " ++ name.text
  | reference name => "variable " ++ name
  | l => l.category.text

end Lexeme

/-- A lexeme at a place. -/
structure Token where
  /-- What the token says. -/
  lexeme : Lexeme
  /-- Where it says so. -/
  span : Span
deriving DecidableEq

namespace Token

/-- The symbol of an identifier. -/
def identifier? (t : Token) : Option Symbol :=
  match t.lexeme with
  | .identifier name => some name
  | _ => none

/-- The variable a token refers to. -/
def reference? (t : Token) : Option String :=
  match t.lexeme with
  | .reference name => some name
  | _ => none

/-- The construct an identifier asks for. -/
def construct? (t : Token) : Option Construct :=
  t.identifier?.map Construct.ofSymbol

/-- Whether the token is an identifier that asks for `construct`. -/
def asksFor (t : Token) (construct : Construct) : Bool :=
  t.construct? == some construct

end Token

end Pictograph
