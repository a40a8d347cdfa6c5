import Pictograph.Analysis.Operand
import Pictograph.Catalogue.Join

/-!
# Strings and collections put together

The literals with any number of parts. The element type of a collection is what the types of its
parts have in common; an empty literal takes it from the context.
-/

namespace Pictograph.Analysis

/-- Concatenates strings, `🍪 string string* 🍪`. -/
def concatenate (Γ : Setting) (rec : Recursion) : Analysis Ty := do
  emit .concatenate
  let count ← reserve
  let _ ← operandFitting Γ rec .string
  let strings ← repeatUntil (fun strings ↦ do
    let token ← next
    if token.asksFor .concatenate then
      return .inr strings
    let _ ← fitting Γ rec token .string
    return .inl (strings + 1)) 1
  fill count (UInt32.ofNat strings)
  return .string

/-- The element type of an empty literal of a collection class: that of the collection that the
context asks for, or else the type of everything. -/
def emptyElement (collection : TypeId) (hint : Option Ty) (span : Span) : Analysis Ty := do
  match (hint.filter (·.objectId? == some collection)).bind (·.arguments.head?) with
  | some element => return element
  | none =>
    warn .emptyCollection span
    return .anything

/-- Analyses the parts of a literal up to its end, each of them by `part`, and returns the type that
they have in common. -/
def parts (Γ : Setting) (part : Token → Analysis Ty) : Analysis (Option Ty) :=
  repeatUntil (fun common? ↦ do
    let token ← next
    if token.asksFor .collectionEnd then
      return .inr common?
    return .inl (Γ.catalogue.joinNext common? (← part token))) none

/-- A collection literal, given how to analyse a part of it. -/
def collection (Γ : Setting) (opcode : Opcode) (id : TypeId) (part : Token → Analysis Ty)
    (hint : Option Ty) (span : Span) : Analysis Ty := do
  emit opcode
  let count ← reserveCount
  let common? ← parts Γ part
  fillCount count
  let element ← match common? with
    | some element => pure element
    | none => emptyElement id hint span
  return .objectOf id [element]

/-- A list, `🍨 element* 🍆`. -/
def list (Γ : Setting) (rec : Recursion) (hint : Option Ty) (span : Span) : Analysis Ty :=
  collection Γ .list TypeId.list (rec Γ · none) hint span

/-- A dictionary with strings for keys, `🍯 (key value)* 🍆`. -/
def dictionary (Γ : Setting) (rec : Recursion) (hint : Option Ty) (span : Span) : Analysis Ty :=
  collection Γ .dictionary TypeId.dictionary (fun key ↦ do
    let _ ← fitting Γ rec key .string
    operand Γ rec) hint span

end Pictograph.Analysis
