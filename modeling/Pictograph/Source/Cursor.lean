import Pictograph.Diagnostic
import Pictograph.Source.Token

/-!
# Reading tokens

A cursor stands between two tokens of a body: it holds the tokens already read, the latest first,
and the tokens still to come. Reading is a state monad over the cursor that keeps the cursor where
it stopped when it fails, because callers report how far they came.
-/

namespace Pictograph

/-- A place in a list of tokens. -/
structure Cursor where
  /-- The tokens already read, the latest first. -/
  before : List Token
  /-- The tokens still to come. -/
  after : List Token
deriving DecidableEq

namespace Cursor

/-- The cursor in front of a body. -/
def start (tokens : List Token) : Cursor := ⟨[], tokens⟩

/-- How many tokens were read. -/
def position (c : Cursor) : Nat := c.before.length

/-- How many tokens are still to come. -/
def remaining (c : Cursor) : Nat := c.after.length

/-- Whether every token was read. -/
def atEnd (c : Cursor) : Bool := c.after.isEmpty

/-- The next token, which stays unread. -/
def peek (c : Cursor) : Option Token := c.after.head?

/-- Whether the next token asks for `construct`. -/
def nextAsksFor (c : Cursor) (construct : Construct) : Bool :=
  c.peek.any (·.asksFor construct)

/-- The place to blame for what comes next: that of the next token, past the end that of the last
token, and in an empty body nowhere. -/
def here (c : Cursor) : Span :=
  match c.after, c.before with
  | t :: _, _ => t.span
  | [], t :: _ => t.span
  | [], [] => .nowhere

/-- The next token and the cursor behind it. -/
def advance (c : Cursor) : Option (Token × Cursor) :=
  match c.after with
  | [] => none
  | t :: rest => some (t, ⟨t :: c.before, rest⟩)

/-- Reading neither loses nor invents tokens. -/
theorem advance_eq_some {c d : Cursor} {t : Token} (h : c.advance = some (t, d)) :
    c.after = t :: d.after ∧ d.before = t :: c.before := by
  rcases c with ⟨before, _ | ⟨u, rest⟩⟩
  · simp [advance] at h
  · simp only [advance, Option.some.injEq, Prod.mk.injEq] at h
    obtain ⟨rfl, rfl⟩ := h
    exact ⟨rfl, rfl⟩

end Cursor

/-- A computation that reads tokens and may stop with a fault. -/
abbrev Reading := EStateM Fault Cursor

namespace Reading

/-- The next token, without reading it. -/
def peek : Reading (Option Token) := do
  return (← get).peek

/-- Reads a token. At the end of the body nothing is read. -/
def next : Reading Token := fun c ↦
  match c.advance with
  | some (t, d) => .ok t d
  | none => .error (Cause.unexpectedEnd.at c.here) c

/-- Rejects a token that was read in place of another. -/
def reject {α : Type} (expected : String) (t : Token) : Reading α :=
  throw ((Cause.unexpectedToken expected t.lexeme.describe).at t.span)

/-- Reads a token of the given category. A token of another category is read too, and rejected. -/
def expect (category : Category) : Reading Token := do
  let t ← next
  if t.lexeme.category = category then
    return t
  reject category.text t

/-- Reads an identifier that asks for `construct`; `spelling` is what the message calls it. -/
def expectConstruct (construct : Construct) (spelling : Symbol) : Reading Token := do
  let t ← next
  if t.asksFor construct then
    return t
  reject ("identifier " ++ spelling.text) t

/-- Reads the next token if it passes the test, and otherwise leaves it. -/
def accept (test : Token → Bool) : Reading (Option Token) := fun c ↦
  match c.advance with
  | some (t, d) => if test t then .ok (some t) d else .ok none c
  | none => .ok none c

/-- Reads the next token if it asks for `construct`. -/
def acceptConstruct (construct : Construct) : Reading (Option Token) :=
  accept (·.asksFor construct)

/-- Reads the next token if it is the identifier `symbol`. -/
def acceptSymbol (symbol : Symbol) : Reading (Option Token) :=
  accept (·.identifier? == some symbol)

/-- Reads the next token if it refers to a variable. -/
def acceptReference : Reading (Option String) := fun c ↦
  match c.advance with
  | some (t, d) =>
    match t.reference? with
    | some x => .ok (some x) d
    | none => .ok none c
  | none => .ok none c

/-- Reads an identifier, whatever it asks for, together with its place. -/
def name : Reading (Symbol × Span) := do
  let t ← expect .identifier
  match t.identifier? with
  | some symbol => return (symbol, t.span)
  | none => reject Category.identifier.text t

/-- Reads the name of a variable together with its place. -/
def variableName : Reading (String × Span) := do
  let t ← expect .reference
  match t.reference? with
  | some name => return (name, t.span)
  | none => reject Category.reference.text t

end Reading

end Pictograph
