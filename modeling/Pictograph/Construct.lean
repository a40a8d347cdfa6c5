import Pictograph.Symbol

/-!
# Constructs

An identifier asks for one of a closed set of constructs, or else it is the name of a method or of a
primitive operator. The vocabulary is a table: `Construct.spelling` gives the symbol of each
construct, and reading a symbol looks it up among the spellings.
-/

namespace Pictograph

/-- What an identifier asks for. -/
inductive Construct where
  | declare
  | assign
  | declareFrozen
  | increment
  | decrement
  | concatenate
  | list
  | dictionary
  | collectionEnd
  | ifBranch
  | elseIfBranch
  | elseBranch
  /-- Opens a block, or a closure where an expression is expected. -/
  | blockOpen
  | blockClose
  | repeatWhile
  | forIn
  | dynamicClass
  | selfReference
  | enumValue
  | instantiate
  | nothingness
  | isNothingness
  | identical
  | superInitializer
  | returning
  | cast
  | unwrap
  | optionalChain
  | classMethod
  | captureMethod
  | invoke
  | superMethod
  /-- Any other symbol, as the name of a method or an operator. -/
  | method (name : Symbol)
deriving DecidableEq, Inhabited

namespace Construct

/-- Every construct that has a symbol to itself. -/
def reserved : List Construct :=
  [declare, assign, declareFrozen, increment, decrement, concatenate, list, dictionary,
    collectionEnd, ifBranch, elseIfBranch, elseBranch, blockOpen, blockClose, repeatWhile, forIn,
    dynamicClass, selfReference, enumValue, instantiate, nothingness, isNothingness, identical,
    superInitializer, returning, cast, unwrap, optionalChain, classMethod, captureMethod, invoke,
    superMethod]

/-- The symbol a construct is written with. -/
def spelling : Construct → Symbol
  | declare => ⟨0x1F370⟩ -- 🍰
  | assign => ⟨0x1F36E⟩ -- 🍮
  | declareFrozen => ⟨0x1F366⟩ -- 🍦
  | increment => ⟨0x1F36B⟩ -- 🍫
  | decrement => ⟨0x1F373⟩ -- 🍳
  | concatenate => ⟨0x1F36A⟩ -- 🍪
  | list => ⟨0x1F368⟩ -- 🍨
  | dictionary => ⟨0x1F36F⟩ -- 🍯
  | collectionEnd => ⟨0x1F346⟩ -- 🍆
  | ifBranch => ⟨0x1F34A⟩ -- 🍊
  | elseIfBranch => ⟨0x1F34B⟩ -- 🍋
  | elseBranch => ⟨0x1F353⟩ -- 🍓
  | blockOpen => ⟨0x1F347⟩ -- 🍇
  | blockClose => ⟨0x1F349⟩ -- 🍉
  | repeatWhile => ⟨0x1F501⟩ -- 🔁
  | forIn => ⟨0x1F502⟩ -- 🔂
  | dynamicClass => ⟨0x1F400⟩ -- 🐀
  | selfReference => ⟨0x1F415⟩ -- 🐕
  | enumValue => ⟨0x1F53A⟩ -- 🔺
  | instantiate => ⟨0x1F537⟩ -- 🔷
  | nothingness => ⟨0x26A1⟩ -- ⚡
  | isNothingness => ⟨0x2601⟩ -- ☁
  | identical => ⟨0x1F61C⟩ -- 😜
  | superInitializer => ⟨0x1F410⟩ -- 🐐
  | returning => ⟨0x1F34E⟩ -- 🍎
  | cast => ⟨0x1F532⟩ -- 🔲
  | unwrap => ⟨0x1F37A⟩ -- 🍺
  | optionalChain => ⟨0x1F37B⟩ -- 🍻
  | classMethod => ⟨0x1F369⟩ -- 🍩
  | captureMethod => ⟨0x1F336⟩ -- 🌶
  | invoke => ⟨0x1F36D⟩ -- 🍭
  | superMethod => ⟨0x1F43F⟩ -- 🐿
  | method name => name

/-- The construct a symbol asks for. -/
def ofSymbol (s : Symbol) : Construct :=
  (reserved.find? (·.spelling == s)).getD (method s)

/-- **Reading is inverse to spelling.** Whatever construct a symbol asks for is written with that
symbol. -/
@[simp] theorem spelling_ofSymbol (s : Symbol) : (ofSymbol s).spelling = s := by
  unfold ofSymbol
  cases h : reserved.find? (·.spelling == s) with
  | none => rfl
  | some c => simpa using List.find?_some h

/-- No two reserved constructs share a symbol. -/
theorem ofSymbol_spelling {c : Construct} (hc : c ∈ reserved) : ofSymbol c.spelling = c := by
  revert c
  decide

end Construct

end Pictograph
