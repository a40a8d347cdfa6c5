import Pictograph.Analysis.Aggregate
import Pictograph.Analysis.Body
import Pictograph.Analysis.Conversion
import Pictograph.Analysis.Creation
import Pictograph.Analysis.Storage
import Pictograph.Analysis.Value

/-!
# Expressions

The first token of an expression decides which construct it is. Every nested expression starts with
a token of its own that was read before, so expressions are nested no deeper than there are tokens,
and the number of tokens bounds the recursion.
-/

namespace Pictograph

namespace Analysis

/-- Rejects a token that starts no expression. -/
def noExpression (token : Token) : Analysis Ty :=
  fail (.unexpectedToken "expression" token.lexeme.describe) token.span

/-- Analyses the expression that an identifier starts. -/
def construct (Γ : Setting) (rec : Recursion) (token : Token) (symbol : Symbol)
    (hint : Option Ty) : Analysis Ty :=
  let span := token.span
  match Construct.ofSymbol symbol with
  | .declare => declareVariable Γ
  | .assign => assign Γ rec
  | .declareFrozen => declareFrozen Γ rec
  | .increment => stepVariable Γ .increment .increment
  | .decrement => stepVariable Γ .decrement .decrement
  | .concatenate => concatenate Γ rec
  | .list => list Γ rec hint span
  | .dictionary => dictionary Γ rec hint span
  | .ifBranch => ifChain Γ rec
  | .repeatWhile => repeatWhile Γ rec
  | .forIn => forIn Γ rec span
  | .returning => returnValue Γ rec span
  | .selfReference => selfReference Γ span
  | .enumValue => enumValue Γ span
  | .instantiate => instantiate Γ rec span
  | .nothingness => nothingnessLiteral
  | .isNothingness => isNothingness Γ rec
  | .identical => identical Γ rec
  | .superInitializer => superInitializer Γ rec span
  | .cast => cast Γ rec span
  | .unwrap => unwrap Γ rec span
  | .optionalChain => optionalChain Γ rec span
  | .classMethod => callClassMethod Γ rec
  | .captureMethod => captureMethod Γ rec
  | .invoke => invoke Γ rec
  | .superMethod => callSuperMethod Γ rec span
  | .blockOpen => closure Γ rec
  | .method method => call Γ rec method span
  | .elseIfBranch | .elseBranch | .blockClose | .collectionEnd | .dynamicClass =>
    noExpression token

/-- Analyses an expression, given how to analyse the expressions inside it. -/
def expressionStep (rec : Recursion) : Recursion := fun Γ token hint ↦ do
  setLine token.span.line
  match token.lexeme with
  | .string content => stringLiteral content
  | .boolean value => booleanLiteral value
  | .integer value => integerLiteral value
  | .double bits => doubleLiteral bits
  | .symbol value => symbolLiteral value
  | .reference x => readVariable x token.span
  | .comment _ => fail (.invalidOperation "misplaced documentation comment") token.span
  | .argumentsOpen | .argumentsClose => noExpression token
  | .identifier symbol =>
    -- A return is the one construct that asks whether something has happened before it.
    if Construct.ofSymbol symbol ≠ .returning then
      modifyFrame ({ · with hasEffect := true })
    construct Γ rec token symbol hint

/-- Analyses an expression with at most `fuel` levels of nesting. -/
def expression : (fuel : Nat) → Recursion
  | 0 => fun _ _ _ ↦ throw .exhausted
  | fuel + 1 => expressionStep (expression fuel)

end Analysis

/-- Analyses a body, which runs up to and including its `🍉`. Tokens after that are left unread. Also
an analysis that fails ends in a state, with all that was done up to there. -/
def analyse (Γ : Setting) (arguments : List Argument) (fields : Option Scope) (session : Session)
    (tokens : List Token) : EStateM.Result Fault State Summary :=
  Analysis.body Γ (Analysis.expression tokens.length) arguments [] 0
    { cursor := .start tokens, assembler := .start, session, environment := .start fields,
      frame := {} }

end Pictograph
