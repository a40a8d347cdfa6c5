import Pictograph.Proofs.Code.Outline

/-!
# The layout of code

The documentation of the instruction set says for each opcode what follows it: whether there is a
word count, how many immediate words there are, and how many operands. Code is in prefix order if
every opcode is followed by just that, and every operand is the code of an instruction.

An operand may be missing from an outline, since a declaration has no code. So the predicates of
this module are relative to a set of *gaps*, the offsets at which an operand may be missing. Code in
prefix order has none.

## Main definitions

* `Opcode.layout?`: what follows an opcode.
* `Outline.Fills`: an outline fills a number of operands, apart from gaps.
* `Item.Laid` and `Outline.Laid`: every opcode is followed by what its layout says.
* `Outline.InPrefixOrder`: no operand is missing.

## The number of arguments

How many arguments a call takes is not in its code. The predicates take it from a relation between
the offsets of calls and numbers of arguments.
-/

namespace Pictograph

/-! ## Layouts -/

/-- How many operands stand behind the immediate words of an instruction. -/
inductive OperandCount where
  /-- This many. -/
  | exactly (n : Nat)
  /-- As many as what is called takes. -/
  | arguments
  /-- What is called, and as many as it takes. -/
  | called
  /-- As many as the word count spans. -/
  | any
  /-- As many as the word count spans, in pairs. -/
  | pairs
  /-- As many as the immediate word says. -/
  | stated

/-- What follows an opcode. -/
structure Layout where
  /-- What the word count behind the opcode counts, if there is one. -/
  counted : Counted := .nothing
  /-- How many operands stand in front of the immediate words. -/
  receivers : Nat := 0
  /-- How many immediate words there are. -/
  words : Nat := 0
  /-- How many operands stand behind the immediate words. -/
  operands : OperandCount := .exactly 0

/-- How many operands an operator takes. -/
def Operator.operandCount : Operator → Nat
  | not => 1
  | _ => 2

/-- What follows an opcode. The constructs with blocks, and closures, have a form of their own. -/
def Opcode.layout? : Opcode → Option Layout
  | methodCall => some { receivers := 1, words := 1, operands := .arguments }
  | protocolMethodCall => some { receivers := 1, words := 2, operands := .arguments }
  | classMethodCall | instantiate | superMethodCall | superInitializer =>
    some { words := 2, operands := .arguments }
  | optionalChain =>
    some { counted := .receiver, receivers := 1, words := 1, operands := .arguments }
  | invoke => some { operands := .called }
  | captureMethod => some { receivers := 1, words := 1 }
  | boolean _ | nothingness | selfReference => some {}
  | string | integer | symbol => some { words := 1 }
  | wideInteger | double => some { words := 2 }
  | access _ .store | conditionalBind => some { words := 1, operands := .exactly 1 }
  | access _ _ => some { words := 1 }
  | operator o => some { operands := .exactly o.operandCount }
  | identical => some { operands := .exactly 2 }
  | isNothingness | unwrap | returning => some { operands := .exactly 1 }
  | cast (.object _) | cast (.protocol _) => some { receivers := 1, words := 1 }
  | cast _ => some { operands := .exactly 1 }
  | list => some { counted := .operands, operands := .any }
  | dictionary => some { counted := .operands, operands := .pairs }
  | concatenate => some { words := 1, operands := .stated }
  | repeatWhile | ifChain | forIn _ | elseIfBranch | elseBranch | closure => none

/-- A number of operands is one that a layout admits, given which numbers of arguments a call may
have and the immediate words. -/
def OperandCount.Admits (callee : Nat → Prop) (words : List UInt32) : OperandCount → Nat → Prop
  | exactly n, n' => n' = n
  | arguments, n => callee n
  | called, n => ∃ m, callee m ∧ n = m + 1
  | any, _ => True
  | pairs, n => ∃ m, n = 2 * m
  | stated, n => words = [UInt32.ofNat n]

/-- A number of operands that may be missing is no more than a number that stands in the layout. -/
def OperandCount.Allows : OperandCount → Nat → Prop
  | exactly n, n' => n' ≤ n
  | _, _ => True

/-- An instruction has the parts that a layout says. -/
structure Layout.Fits (layout : Layout) (callee : Nat → Prop) (counted : Counted)
    (receivers : Nat) (words : List UInt32) (operands : Nat) : Prop where
  counted_eq : counted = layout.counted
  receivers_eq : receivers = layout.receivers
  length_words : words.length = layout.words
  admits : layout.operands.Admits callee words operands

/-- An instruction has the parts that a layout says, but operands may be missing. -/
structure Layout.Bounds (layout : Layout) (counted : Counted) (receivers words operands : Nat) :
    Prop where
  counted_eq : counted = layout.counted
  receivers_le : receivers ≤ layout.receivers
  words_eq : words = layout.words
  operands_le : layout.operands.Allows operands

/-- The parts of an instruction are those that its opcode asks for, but operands may be missing. -/
def Opcode.Bounds (op : Opcode) (counted : Counted) (receivers words operands : Nat) : Prop :=
  ∃ layout, op.layout? = some layout ∧ layout.Bounds counted receivers words operands

instance : (count : OperandCount) → (n : Nat) → Decidable (count.Allows n)
  | .exactly m, n => inferInstanceAs (Decidable (n ≤ m))
  | .arguments, _ | .called, _ | .any, _ | .pairs, _ | .stated, _ => .isTrue trivial

instance (layout : Layout) (counted : Counted) (receivers words operands : Nat) :
    Decidable (layout.Bounds counted receivers words operands) :=
  decidable_of_iff (counted = layout.counted ∧ receivers ≤ layout.receivers
      ∧ words = layout.words ∧ layout.operands.Allows operands)
    ⟨fun ⟨hc, hr, hw, ho⟩ ↦ ⟨hc, hr, hw, ho⟩, fun ⟨hc, hr, hw, ho⟩ ↦ ⟨hc, hr, hw, ho⟩⟩

instance (op : Opcode) (counted : Counted) (receivers words operands : Nat) :
    Decidable (op.Bounds counted receivers words operands) :=
  inferInstanceAs (Decidable
    (∃ layout ∈ op.layout?, layout.Bounds counted receivers words operands))

/-- Where an operand stands in front of the immediate words, there is one and there are such
words. -/
theorem Opcode.receivers_cases {op : Opcode} {layout : Layout} (h : op.layout? = some layout) :
    layout.receivers = 0 ∨ layout.receivers = 1 ∧ 0 < layout.words := by
  unfold layout? at h
  split at h <;> cases h <;> first | exact .inl rfl | exact .inr ⟨rfl, Nat.succ_pos _⟩

/-! ## Operands -/

/-- An outline that starts at an offset fills a number of operands. Each of them is an item, or it
is missing at a gap. -/
inductive Outline.Fills (gap : Nat → Prop) : Nat → List Item → Nat → Prop
  | nil {k} : Fills gap 0 [] k
  | item {n item rest k} : Fills gap n rest (k + Item.size item) →
      Fills gap (n + 1) (item :: rest) k
  | gap {n o k} : gap k → Fills gap n o k → Fills gap (n + 1) o k

namespace Outline.Fills

variable {gap : Nat → Prop} {n n' k : Nat} {o o' : Outline}

theorem single (item : Item) : Fills gap 1 [item] k := .item .nil

theorem append (h : Fills gap n o k) (h' : Fills gap n' o' (k + Outline.size o)) :
    Fills gap (n + n') (o ++ o') k := by
  induction h with
  | nil =>
    rw [Nat.zero_add]
    exact h'
  | @item n item rest k _ ih =>
    rw [Outline.size_cons, ← Nat.add_assoc] at h'
    rw [Nat.add_right_comm]
    exact .item (ih h')
  | gap hk _ ih =>
    rw [Nat.add_right_comm]
    exact .gap hk (ih h')

theorem eq_nil (h : Fills gap 0 o k) : o = [] := by
  cases h
  rfl

/-- There are no more items than operands. -/
theorem length_le (h : Fills gap n o k) : o.length ≤ n := by
  induction h with
  | nil => exact Nat.le_refl 0
  | item _ ih => exact Nat.succ_le_succ ih
  | gap _ _ ih => exact Nat.le_succ_of_le ih

/-- Without gaps there is one item for each operand. -/
theorem length_eq (h : Fills gap n o k) (hg : ∀ k, ¬ gap k) : o.length = n := by
  induction h with
  | nil => rfl
  | item _ ih => exact congrArg (· + 1) ih
  | gap hk => exact absurd hk (hg _)

end Outline.Fills

/-- What has all parts that its layout says has no more than these. -/
theorem Layout.Fits.bounds {layout : Layout} {callee gap : Nat → Prop} {counted : Counted}
    {words : List UInt32} {r n k k' : Nat} {receiver operands : Outline}
    (h : layout.Fits callee counted r words n) (hr : Outline.Fills gap r receiver k)
    (ho : Outline.Fills gap n operands k') :
    layout.Bounds counted receiver.length words.length operands.length where
  counted_eq := h.counted_eq
  receivers_le := h.receivers_eq ▸ hr.length_le
  words_eq := h.length_words
  operands_le := by
    have ha := h.admits
    cases hcount : layout.operands with
    | exactly m =>
      rw [hcount] at ha
      exact ha ▸ ho.length_le
    | _ => trivial

/-! ## Prefix order -/

section

variable (gap : Nat → Prop) (callee : Nat → Nat → Prop)

mutual

/-- In an item that starts at an offset every opcode is followed by what its layout says. -/
def Item.Laid : Item → Nat → Prop
  | .instruction op counted receiver words operands, k =>
    (∃ layout receivers count, op.layout? = some layout
      ∧ layout.Fits (callee k) counted receivers words count
      ∧ Outline.Fills gap receivers receiver (k + 1 + counted.size)
      ∧ Outline.Fills gap count operands
        (k + 1 + counted.size + Outline.size receiver + words.length))
    ∧ Outline.Laid receiver (k + 1 + counted.size)
    ∧ Outline.Laid operands (k + 1 + counted.size + Outline.size receiver + words.length)
  | .ifChain condition body rest, k =>
    Outline.Fills gap 1 condition (k + 2) ∧ Outline.Laid condition (k + 2)
      ∧ Outline.Laid body (k + 3 + Outline.size condition)
      ∧ Outline.Laid rest (k + 3 + Outline.size condition + Outline.size body)
  | .elseIf condition body rest, k =>
    Outline.Fills gap 1 condition (k + 1) ∧ Outline.Laid condition (k + 1)
      ∧ Outline.Laid body (k + 2 + Outline.size condition)
      ∧ Outline.Laid rest (k + 2 + Outline.size condition + Outline.size body)
  | .otherwise body, k => Outline.Laid body (k + 2)
  | .repeatWhile condition body, k =>
    Outline.Fills gap 1 condition (k + 1) ∧ Outline.Laid condition (k + 1)
      ∧ Outline.Laid body (k + 2 + Outline.size condition)
  | .forIn _ _ _ iteratee body, k =>
    Outline.Fills gap 1 iteratee (k + 3) ∧ Outline.Laid iteratee (k + 3)
      ∧ Outline.Laid body (k + 4 + Outline.size iteratee)
  | .closure _ body _ _ _, k => Outline.Laid body (k + 3)

/-- In an outline that starts at an offset every opcode is followed by what its layout says. -/
def Outline.Laid : List Item → Nat → Prop
  | [], _ => True
  | item :: rest, k => item.Laid k ∧ Outline.Laid rest (k + item.size)

end

variable {gap callee}

theorem Outline.Laid.append {o o' : Outline} {k : Nat} (h : Outline.Laid gap callee o k)
    (h' : Outline.Laid gap callee o' (k + Outline.size o)) :
    Outline.Laid gap callee (o ++ o') k := by
  induction o generalizing k with
  | nil => exact h'
  | cons item o ih =>
    rw [Outline.size_cons, ← Nat.add_assoc] at h'
    exact ⟨h.1, ih h.2 h'⟩

theorem Outline.laid_singleton {item : Item} {k : Nat} :
    Outline.Laid gap callee [item] k ↔ item.Laid gap callee k := iff_of_eq (and_true _)

/-- **Prefix order.** Every opcode is followed by what its layout says, and no operand is
missing. -/
def Outline.InPrefixOrder (callee : Nat → Nat → Prop) (o : Outline) : Prop :=
  Outline.Laid (fun _ ↦ False) callee o 0

/-- Without gaps everything is in prefix order. -/
theorem Outline.Laid.inPrefixOrder {o : Outline} (h : Outline.Laid gap callee o 0)
    (hg : ∀ k, ¬ gap k) : Outline.InPrefixOrder callee o := by
  have hgap : gap = fun _ ↦ False := funext fun k ↦ eq_false (hg k)
  rwa [hgap] at h

end

end Pictograph
