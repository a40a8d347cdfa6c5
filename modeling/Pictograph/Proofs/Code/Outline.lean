import Pictograph.Analysis.Body

/-!
# Outlines of code

Code is a list of words, but it is written and executed as a tree: an instruction owns its
immediate words, the code of its operands and, for the constructs with a word count, the block the
count spans. An *outline* is that tree. Listing an outline gives back the words, each with the
opcode it was written as, so an outline whose listing is that of a chunk is a reading of the chunk.

The words that count others are not part of an outline. They follow from it, so an outline cannot
have a wrong one. Which of the readings of a chunk is meant is said by the places of expressions, in
`Proofs.Code.Places`.

## Main definitions

* `Item.entries` and `Outline.entries` are the words that an outline stands for.
* `Item.survey` and `Outline.survey` list the instructions with their offsets and with what there is
  around them.

## Main results

* `Outline.marksFrom_entries`: a survey finds exactly the words that were written as opcodes.
* `Outline.pairwise_survey`: it finds them in the order of their offsets.

## Operands

The code of all operands of an instruction is one list of items. A declaration has no code at all,
so an operand may be missing from the list.
-/

namespace Pictograph

/-- A word of code together with the opcode that was written there, if one was. -/
abbrev Entry := UInt32 × Option Opcode

/-- The words of a chunk with their opcodes. -/
def Chunk.listing (c : Chunk) : List Entry := c.cells.toList.map fun cell ↦ (cell.word, cell.mark)

@[simp] theorem Chunk.length_listing (c : Chunk) : c.listing.length = c.size := by
  rw [Chunk.listing, List.length_map, Array.length_toList]
  rfl

/-- The word at an offset, as the listing has it. -/
theorem Chunk.wordAt?_eq (c : Chunk) (offset : Nat) :
    c.wordAt? offset = c.listing[offset]?.map Prod.fst := by
  rw [Chunk.listing, List.getElem?_map, Array.getElem?_toList, Option.map_map]
  rfl

/-- The entry of an opcode. -/
def Opcode.entry (op : Opcode) : Entry := (op.word, some op)

/-- The entry of an immediate word. -/
def immediate (w : UInt32) : Entry := (w, none)

/-- The entry of a number. -/
def immediateNumber (n : Nat) : Entry := immediate (UInt32.ofNat n)

/-! ## Items -/

/-- What the word count in front of the operands of an instruction counts. -/
inductive Counted where
  /-- There is no word count. -/
  | nothing
  /-- The receiver and the immediate words. -/
  | receiver
  /-- The operands. -/
  | operands
deriving DecidableEq

/-- An instruction with everything that belongs to it. -/
inductive Item where
  /-- An opcode, the word count if there is one, the operand that stands in front of the immediate
  words, the immediate words, and the operands behind them. -/
  | instruction (op : Opcode) (counted : Counted) (receiver : List Item) (words : List UInt32)
      (operands : List Item)
  /-- A chain of branches: the first condition with its block, and the rest of the chain, which is
  empty, an `elseIf` or an `otherwise`. -/
  | ifChain (condition body rest : List Item)
  /-- A further branch of a chain, with the rest of the chain. -/
  | elseIf (condition body rest : List Item)
  /-- The last branch of a chain, which has no condition. -/
  | otherwise (body : List Item)
  /-- A loop with a condition. -/
  | repeatWhile (condition body : List Item)
  /-- A loop over the elements of a value. -/
  | forIn (overList : Bool) (slot hidden : Nat) (iteratee body : List Item)
  /-- A closure with its body and what the words behind the body say. -/
  | closure (slots : Nat) (body : List Item) (arguments : Nat) (usesSelf : Bool) (captured : Nat)

/-- Code as a list of items. -/
abbrev Outline := List Item

/-- An instruction whose operands stand behind its immediate words. -/
abbrev Item.plain (op : Opcode) (words : List UInt32) (operands : Outline) : Item :=
  .instruction op .nothing [] words operands

/-- The number of words that a word count takes. -/
def Counted.size : Counted → Nat
  | nothing => 0
  | receiver | operands => 1

/-- The word count of an instruction whose parts have these sizes. -/
def Counted.entries (counted : Counted) (receiverSize operandsSize : Nat) : List Entry :=
  match counted with
  | nothing => []
  | receiver => [immediateNumber receiverSize]
  | operands => [immediateNumber operandsSize]

@[simp] theorem Counted.length_entries (counted : Counted) (r o : Nat) :
    (counted.entries r o).length = counted.size := by
  cases counted <;> rfl

/-- The word that a closure has its argument count in. -/
def closureWord (arguments : Nat) (usesSelf : Bool) : UInt32 :=
  if usesSelf then UInt32.ofNat arguments ||| Analysis.selfFlag else UInt32.ofNat arguments

mutual

/-- The words of an item. -/
def Item.entries : Item → List Entry
  | .instruction op counted receiver words operands =>
    op.entry :: (counted.entries ((Outline.entries receiver).length + words.length)
        (Outline.entries operands).length
      ++ (Outline.entries receiver ++ (words.map immediate ++ Outline.entries operands)))
  | .ifChain condition body rest =>
    Opcode.ifChain.entry
      :: immediateNumber ((Outline.entries condition).length + 1 + (Outline.entries body).length
        + (Outline.entries rest).length)
      :: (Outline.entries condition ++ immediateNumber (Outline.entries body).length
        :: (Outline.entries body ++ Outline.entries rest))
  | .elseIf condition body rest =>
    Opcode.elseIfBranch.entry
      :: (Outline.entries condition ++ immediateNumber (Outline.entries body).length
        :: (Outline.entries body ++ Outline.entries rest))
  | .otherwise body =>
    Opcode.elseBranch.entry :: immediateNumber (Outline.entries body).length
      :: Outline.entries body
  | .repeatWhile condition body =>
    Opcode.repeatWhile.entry
      :: (Outline.entries condition ++ immediateNumber (Outline.entries body).length
        :: Outline.entries body)
  | .forIn overList slot hidden iteratee body =>
    (Opcode.forIn overList).entry :: immediateNumber slot :: immediateNumber hidden
      :: (Outline.entries iteratee ++ immediateNumber (Outline.entries body).length
        :: Outline.entries body)
  | .closure slots body arguments usesSelf captured =>
    Opcode.closure.entry :: immediateNumber slots :: immediateNumber (Outline.entries body).length
      :: (Outline.entries body
        ++ [immediate (closureWord arguments usesSelf), immediateNumber captured])

/-- The words of an outline. -/
def Outline.entries : List Item → List Entry
  | [] => []
  | item :: rest => item.entries ++ Outline.entries rest

end

/-- The number of words of an item. -/
def Item.size (item : Item) : Nat := item.entries.length

namespace Outline

/-- The number of words of an outline. -/
def size (o : Outline) : Nat := (entries o).length

@[simp] theorem entries_nil : entries [] = [] := rfl

theorem entries_cons (item : Item) (o : Outline) :
    entries (item :: o) = item.entries ++ entries o := rfl

@[simp] theorem entries_append (o o' : Outline) :
    entries (o ++ o') = entries o ++ entries o' := by
  induction o with
  | nil => rfl
  | cons item o ih => rw [List.cons_append, entries_cons, entries_cons, ih, List.append_assoc]

@[simp] theorem entries_singleton (item : Item) : entries [item] = item.entries := by
  rw [entries_cons, entries_nil, List.append_nil]

@[simp] theorem length_entries (o : Outline) : (entries o).length = size o := rfl

@[simp] theorem size_nil : size [] = 0 := rfl

@[simp] theorem size_singleton (item : Item) : size [item] = item.size := by
  rw [size, entries_singleton, Item.size]

theorem size_cons (item : Item) (o : Outline) : size (item :: o) = item.size + size o := by
  rw [size, entries_cons, List.length_append, size, Item.size]

end Outline

namespace Item

variable (condition body rest : Outline)

theorem size_instruction (op : Opcode) (counted : Counted) (receiver : Outline)
    (words : List UInt32) (operands : Outline) :
    (instruction op counted receiver words operands).size
      = 1 + counted.size + receiver.size + words.length + operands.size := by
  simp [size, entries]
  omega

theorem size_ifChain :
    (ifChain condition body rest).size = 3 + condition.size + body.size + rest.size := by
  simp [size, entries]
  omega

theorem size_elseIf :
    (elseIf condition body rest).size = 2 + condition.size + body.size + rest.size := by
  simp [size, entries]
  omega

theorem size_otherwise : (otherwise body).size = 2 + body.size := by
  simp [size, entries]
  omega

theorem size_repeatWhile : (repeatWhile condition body).size = 2 + condition.size + body.size := by
  simp [size, entries]
  omega

theorem size_forIn (overList : Bool) (slot hidden : Nat) :
    (forIn overList slot hidden condition body).size = 4 + condition.size + body.size := by
  simp [size, entries]
  omega

theorem size_closure (slots arguments captured : Nat) (usesSelf : Bool) :
    (closure slots body arguments usesSelf captured).size = 5 + body.size := by
  simp [size, entries]
  omega

end Item

/-! ## Surveys

The instructions of an outline in the order of their offsets, each with what there is around it. -/

/-- An instruction at its place, without its operands. -/
structure Instruction where
  /-- The offset of the opcode. -/
  offset : Nat
  /-- The opcode. -/
  op : Opcode
  /-- The immediate words, word counts left out. -/
  words : List UInt32
deriving DecidableEq

/-- What an instruction is inside of. -/
structure Surroundings where
  /-- The block of a branch or of a loop. -/
  inBlock : Bool := false
  /-- The condition of a further branch or of a loop. -/
  inCondition : Bool := false
  /-- The body of a closure. -/
  inClosure : Bool := false
  /-- The arguments of a superinitializer. -/
  inSuperArguments : Bool := false
deriving DecidableEq

/-- An instruction with its surroundings. -/
structure Located extends Instruction, Surroundings
deriving DecidableEq

namespace Located

/-- An instruction of the outermost level. -/
def outermost (i : Instruction) : Located := { i with }

/-- The same instruction, inside a block. -/
def enterBlock (l : Located) : Located := { l with inBlock := true }

/-- The same instruction, inside a condition that may be left out or repeated. -/
def enterCondition (l : Located) : Located := { l with inCondition := true }

/-- The same instruction, inside a closure. -/
def enterClosure (l : Located) : Located := { l with inClosure := true }

/-- The same instruction as part of an operand of `op`. -/
def enterOperand (op : Opcode) (l : Located) : Located :=
  { l with inSuperArguments := l.inSuperArguments || op == .superInitializer }

end Located

mutual

/-- The instructions of an item that starts at an offset. -/
def Item.survey : Item → Nat → List Located
  | .instruction op counted receiver words operands, k =>
    .outermost ⟨k, op, words⟩
      :: (Outline.survey receiver (k + 1 + counted.size)
        ++ Outline.survey operands
          (k + 1 + counted.size + Outline.size receiver + words.length)).map (·.enterOperand op)
  | .ifChain condition body rest, k =>
    .outermost ⟨k, .ifChain, []⟩ :: (Outline.survey condition (k + 2)
      ++ (Outline.survey body (k + 3 + Outline.size condition)).map (·.enterBlock)
      ++ Outline.survey rest (k + 3 + Outline.size condition + Outline.size body))
  | .elseIf condition body rest, k =>
    .outermost ⟨k, .elseIfBranch, []⟩
      :: ((Outline.survey condition (k + 1)).map (·.enterCondition)
      ++ (Outline.survey body (k + 2 + Outline.size condition)).map (·.enterBlock)
      ++ Outline.survey rest (k + 2 + Outline.size condition + Outline.size body))
  | .otherwise body, k =>
    .outermost ⟨k, .elseBranch, []⟩ :: (Outline.survey body (k + 2)).map (·.enterBlock)
  | .repeatWhile condition body, k =>
    .outermost ⟨k, .repeatWhile, []⟩
      :: ((Outline.survey condition (k + 1)).map (·.enterCondition)
      ++ (Outline.survey body (k + 2 + Outline.size condition)).map (·.enterBlock))
  | .forIn overList slot hidden iteratee body, k =>
    .outermost ⟨k, .forIn overList, [UInt32.ofNat slot, UInt32.ofNat hidden]⟩
      :: (Outline.survey iteratee (k + 3)
      ++ (Outline.survey body (k + 4 + Outline.size iteratee)).map (·.enterBlock))
  | .closure slots body _ _ _, k =>
    .outermost ⟨k, .closure, [UInt32.ofNat slots]⟩
      :: (Outline.survey body (k + 3)).map (·.enterClosure)

/-- The instructions of an outline that starts at an offset. -/
def Outline.survey : List Item → Nat → List Located
  | [], _ => []
  | item :: rest, k => item.survey k ++ Outline.survey rest (k + item.size)

end

namespace Outline

@[simp] theorem survey_nil (k : Nat) : survey [] k = [] := rfl

theorem survey_cons (item : Item) (o : Outline) (k : Nat) :
    survey (item :: o) k = item.survey k ++ survey o (k + item.size) := rfl

@[simp] theorem survey_append (o o' : Outline) (k : Nat) :
    survey (o ++ o') k = survey o k ++ survey o' (k + size o) := by
  induction o generalizing k with
  | nil => rfl
  | cons item o ih =>
    rw [List.cons_append, survey_cons, survey_cons, ih, List.append_assoc, size_cons,
      Nat.add_assoc]

@[simp] theorem survey_singleton (item : Item) (k : Nat) : survey [item] k = item.survey k := by
  rw [survey_cons, survey_nil, List.append_nil]

end Outline

/-! ## Surveys and listings

A survey finds exactly the words that were written as opcodes. -/

/-- The opcodes among words that start at an offset. -/
def marksFrom : Nat → List Entry → List (Nat × Opcode)
  | _, [] => []
  | k, (_, none) :: es => marksFrom (k + 1) es
  | k, (_, some op) :: es => (k, op) :: marksFrom (k + 1) es

@[simp] theorem marksFrom_entry (k : Nat) (op : Opcode) (es : List Entry) :
    marksFrom k (op.entry :: es) = (k, op) :: marksFrom (k + 1) es := rfl

@[simp] theorem marksFrom_immediate (k : Nat) (w : UInt32) (es : List Entry) :
    marksFrom k (immediate w :: es) = marksFrom (k + 1) es := rfl

@[simp] theorem marksFrom_immediateNumber (k n : Nat) (es : List Entry) :
    marksFrom k (immediateNumber n :: es) = marksFrom (k + 1) es := rfl

@[simp] theorem marksFrom_append (k : Nat) (es es' : List Entry) :
    marksFrom k (es ++ es') = marksFrom k es ++ marksFrom (k + es.length) es' := by
  induction es generalizing k with
  | nil => rfl
  | cons e es ih =>
    have hk : k + 1 + es.length = k + (es.length + 1) := by omega
    obtain ⟨w, _ | op⟩ := e
    · rw [List.cons_append, marksFrom, marksFrom, ih, List.length_cons, hk]
    · rw [List.cons_append, marksFrom, marksFrom, ih, List.length_cons, hk, List.cons_append]

@[simp] theorem marksFrom_map_immediate (k : Nat) (words : List UInt32) :
    marksFrom k (words.map immediate) = [] := by
  induction words generalizing k with
  | nil => rfl
  | cons w words ih => rw [List.map_cons, marksFrom_immediate, ih]

@[simp] theorem marksFrom_counted (k : Nat) (counted : Counted) (r o : Nat) :
    marksFrom k (counted.entries r o) = [] := by
  cases counted <;> rfl

/-- The listed opcodes of a chunk are those of its listing. -/
theorem Chunk.marks_eq (c : Chunk) : c.marks = marksFrom 0 c.listing := by
  have h (cells : List Cell) (k : Nat) :
      ((cells.zipIdx k).filterMap fun p ↦ p.1.mark.map (p.2, ·))
        = marksFrom k (cells.map fun cell ↦ (cell.word, cell.mark)) := by
    induction cells generalizing k with
    | nil => rfl
    | cons cell cells ih =>
      obtain ⟨word, line, _ | op⟩ := cell
      · exact ih (k + 1)
      · exact congrArg ((k, op) :: ·) (ih (k + 1))
  exact h c.cells.toList 0

/-- An instruction as a chunk lists it. -/
def Instruction.mark (i : Instruction) : Nat × Opcode := (i.offset, i.op)

/-- The opcodes that a survey finds. -/
def surveyMarks (ls : List Located) : List (Nat × Opcode) := ls.map (·.toInstruction.mark)

@[simp] theorem surveyMarks_nil : surveyMarks [] = [] := rfl

@[simp] theorem surveyMarks_cons (l : Located) (ls : List Located) :
    surveyMarks (l :: ls) = l.toInstruction.mark :: surveyMarks ls := rfl

@[simp] theorem surveyMarks_append (ls ls' : List Located) :
    surveyMarks (ls ++ ls') = surveyMarks ls ++ surveyMarks ls' := List.map_append

/-- Surroundings do not matter for the opcodes. -/
theorem surveyMarks_map {f : Located → Located}
    (hf : ∀ l, (f l).toInstruction = l.toInstruction) (ls : List Located) :
    surveyMarks (ls.map f) = surveyMarks ls := by
  rw [surveyMarks, List.map_map]
  exact List.map_congr_left fun l _ ↦ congrArg Instruction.mark (hf l)

@[simp] theorem surveyMarks_enterBlock (ls : List Located) :
    surveyMarks (ls.map (·.enterBlock)) = surveyMarks ls :=
  surveyMarks_map (f := Located.enterBlock) (fun _ ↦ rfl) ls

@[simp] theorem surveyMarks_enterCondition (ls : List Located) :
    surveyMarks (ls.map (·.enterCondition)) = surveyMarks ls :=
  surveyMarks_map (f := Located.enterCondition) (fun _ ↦ rfl) ls

@[simp] theorem surveyMarks_enterClosure (ls : List Located) :
    surveyMarks (ls.map (·.enterClosure)) = surveyMarks ls :=
  surveyMarks_map (f := Located.enterClosure) (fun _ ↦ rfl) ls

@[simp] theorem surveyMarks_enterOperand (op : Opcode) (ls : List Located) :
    surveyMarks (ls.map (·.enterOperand op)) = surveyMarks ls :=
  surveyMarks_map (f := Located.enterOperand op) (fun _ ↦ rfl) ls

mutual

/-- An item has the opcodes that its survey finds. -/
theorem Item.marksFrom_entries (item : Item) (k : Nat) :
    marksFrom k item.entries = surveyMarks (item.survey k) := by
  cases item with
  | instruction op counted receiver words operands =>
    have hr := Outline.marksFrom_entries receiver (k + 1 + counted.size)
    have ho := Outline.marksFrom_entries operands
      (k + 1 + counted.size + Outline.size receiver + words.length)
    simp [Item.entries, Item.survey, hr, ho, Located.outermost, Instruction.mark]
  | ifChain condition body rest =>
    have hc := Outline.marksFrom_entries condition (k + 2)
    have hb := Outline.marksFrom_entries body (k + 3 + Outline.size condition)
    have hr := Outline.marksFrom_entries rest
      (k + 3 + Outline.size condition + Outline.size body)
    have ek : k + 1 + 1 + Outline.size condition + 1 = k + 3 + Outline.size condition := by omega
    simp [Item.entries, Item.survey, ek, hc, hb, hr, Located.outermost, Instruction.mark]
  | elseIf condition body rest =>
    have hc := Outline.marksFrom_entries condition (k + 1)
    have hb := Outline.marksFrom_entries body (k + 2 + Outline.size condition)
    have hr := Outline.marksFrom_entries rest
      (k + 2 + Outline.size condition + Outline.size body)
    have ek : k + 1 + Outline.size condition + 1 = k + 2 + Outline.size condition := by omega
    simp [Item.entries, Item.survey, ek, hc, hb, hr, Located.outermost, Instruction.mark]
  | otherwise body =>
    have hb := Outline.marksFrom_entries body (k + 2)
    simp [Item.entries, Item.survey, hb, Located.outermost, Instruction.mark]
  | repeatWhile condition body =>
    have hc := Outline.marksFrom_entries condition (k + 1)
    have hb := Outline.marksFrom_entries body (k + 2 + Outline.size condition)
    have ek : k + 1 + Outline.size condition + 1 = k + 2 + Outline.size condition := by omega
    simp [Item.entries, Item.survey, ek, hc, hb, Located.outermost, Instruction.mark]
  | forIn overList slot hidden iteratee body =>
    have hi := Outline.marksFrom_entries iteratee (k + 3)
    have hb := Outline.marksFrom_entries body (k + 4 + Outline.size iteratee)
    have ek : k + 1 + 1 + 1 + Outline.size iteratee + 1 = k + 4 + Outline.size iteratee := by
      omega
    simp [Item.entries, Item.survey, ek, hi, hb, Located.outermost, Instruction.mark]
  | closure slots body arguments usesSelf captured =>
    have hb := Outline.marksFrom_entries body (k + 3)
    simp [Item.entries, Item.survey, hb, marksFrom, Located.outermost, Instruction.mark]

/-- An outline has the opcodes that its survey finds. -/
theorem Outline.marksFrom_entries (o : List Item) (k : Nat) :
    marksFrom k (Outline.entries o) = surveyMarks (Outline.survey o k) := by
  cases o with
  | nil => rfl
  | cons item rest =>
    rw [Outline.entries_cons, marksFrom_append, item.marksFrom_entries, Outline.survey_cons,
      surveyMarks_append, Outline.marksFrom_entries rest, Item.size]

end

/-! ## Order of offsets -/

theorem le_of_mem_marksFrom {k : Nat} {es : List Entry} {p : Nat × Opcode}
    (h : p ∈ marksFrom k es) : k ≤ p.1 := by
  induction es generalizing k with
  | nil => exact nomatch h
  | cons e es ih =>
    obtain ⟨w, _ | op⟩ := e
    · exact Nat.le_of_succ_le (ih h)
    · rcases List.mem_cons.mp h with rfl | h
      · exact Nat.le_refl _
      · exact Nat.le_of_succ_le (ih h)

theorem pairwise_marksFrom (k : Nat) (es : List Entry) :
    (marksFrom k es).Pairwise fun p p' ↦ p.1 < p'.1 := by
  induction es generalizing k with
  | nil => exact .nil
  | cons e es ih =>
    obtain ⟨w, _ | op⟩ := e
    · exact ih (k + 1)
    · exact List.pairwise_cons.mpr ⟨fun _ h ↦ le_of_mem_marksFrom h, ih (k + 1)⟩

/-- A survey lists the instructions in the order of their offsets. -/
theorem Outline.pairwise_survey (o : Outline) (k : Nat) :
    (survey o k).Pairwise fun l l' ↦ l.offset < l'.offset := by
  have h := pairwise_marksFrom k (entries o)
  rw [Outline.marksFrom_entries, surveyMarks, List.pairwise_map] at h
  exact h

end Pictograph
