import Mathlib.Data.Option.Basic
import Pictograph.Code.Tables
import Pictograph.Proofs.Code.Handles
import Pictograph.Proofs.Code.Preservation

/-!
# Finished words

Whoever writes code appends words, reserves some of them, and fills the reserved ones in the end. In
which order this happens is up to the caller, and handles may be kept for longer than they are worth
anything. Whatever is done, as long as no step is refused, the three tables of the code fit together
and a word that is finished stays what it is until the next procedure begins.

The tables are kept apart, and so nothing but the order of the steps keeps them in line. The proof
goes through the table of cells that the assembler has: it makes the same steps, refuses the same
ones, and holds at all times the same words, lines and opcodes.

## Main definitions

* `Writer.Operation`: what can be done while code is written, with any handle.
* `Writer.run?`, `Assembler.run?`: what a list of operations leads to, unless one is refused.
* `Writer.Represents`: the three tables hold what the table of cells holds.
* `Writer.Consistent`: the three tables fit together.
* `Writer.Keeps`: the finished words are still what they were.

## Main results

* `Writer.Represents.run?`: the two ways of keeping code agree on every run.
* `Assembler.Marked.perform?`: an opcode that is recorded stands in its place.
* `Writer.consistent_of_run`: what holds after every run.
-/

namespace Pictograph

open Assembler (Handle Filling)

/-! ## Operations -/

/-- What can be done while code is written. -/
inductive Writer.Operation where
  /-- Goes to a line of the source. -/
  | atLine (line : Nat)
  /-- Appends an opcode. -/
  | opcode (op : Opcode)
  /-- Appends an operand. -/
  | word (w : UInt32)
  /-- Appends a 64-bit operand. -/
  | wide (value : UInt64)
  /-- Reserves a word for a value or an opcode. -/
  | reserve
  /-- Reserves a word for a count. -/
  | reserveCount
  /-- Fills the word that a handle refers to. The handle may come from anywhere. -/
  | fill (handle : Handle) (filling : Filling)
  /-- Ends the procedure and starts the next one. -/
  | reset

/-- Fills a reserved word. One that takes a count is not told what to take. -/
def Writer.fillBy? (w : Writer) : Handle → Filling → Option Writer
  | .value hole, .word value => w.fill? hole value
  | .value hole, .opcode op => w.fillOpcode? hole op
  | .count hole, _ => w.fillCount? hole

/-- The writer after an operation, unless the operation is refused. -/
def Writer.perform? (w : Writer) : Writer.Operation → Option Writer
  | .atLine line => some { w with line }
  | .opcode op => some { w with tables := w.tables.pushOpcode op w.line }
  | .word word => some { w with tables := w.tables.pushWord word w.line }
  | .wide value => some { w with tables := w.tables.pushWide value w.line }
  | .reserve => some w.appendHole
  | .reserveCount => some w.appendHole
  | .fill handle filling => w.fillBy? handle filling
  | .reset => some .start

/-- The assembler after an operation, unless the operation is refused. -/
def Assembler.perform? (a : Assembler) : Writer.Operation → Option Assembler
  | .atLine line => some (a.atLine line)
  | .opcode op => some (a.opcode op)
  | .word w => some (a.word w)
  | .wide value => some (a.wide value)
  | .reserve => some a.reserve.2
  | .reserveCount => some a.reserveCount.2
  | .fill handle filling => handle.fill? a filling
  | .reset => some a.reset.2

/-- The writer after some operations, unless one of them is refused. -/
def Writer.run? (w : Writer) (operations : List Writer.Operation) : Option Writer :=
  operations.foldlM perform? w

/-- The assembler after some operations, unless one of them is refused. -/
def Assembler.run? (a : Assembler) (operations : List Writer.Operation) : Option Assembler :=
  operations.foldlM perform? a

/-! ## Two ways of keeping code -/

namespace Tables

variable {t t' : Tables} {c c' : Chunk}

/-- The three tables hold what the table of cells holds. -/
structure Represents (t : Tables) (c : Chunk) : Prop where
  words : t.words.toList = c.words
  lines : t.lines.toList = c.lines
  opcodes : ∀ k, t.opcodes[k]? = c.opcodeAt? k

theorem represents_empty : Represents {} .empty :=
  ⟨rfl, rfl, fun _ ↦ Std.TreeMap.getElem?_emptyc⟩

namespace Represents

variable (h : t.Represents c)

include h

theorem size : t.words.size = c.size := by
  rw [← Array.length_toList, h.words, Chunk.words, List.length_map, Array.length_toList, Chunk.size]

theorem getElem?_words (k : Nat) : t.words[k]? = c.wordAt? k := by
  rw [← Array.getElem?_toList, h.words, Chunk.words, List.getElem?_map, Array.getElem?_toList,
    Chunk.wordAt?]

theorem getElem?_lines (k : Nat) : t.lines[k]? = c.lineAt? k := by
  rw [← Array.getElem?_toList, h.lines, Chunk.lines, List.getElem?_map, Array.getElem?_toList,
    Chunk.lineAt?]

theorem pushWord (word : UInt32) (line : Nat) :
    (t.pushWord word line).Represents (c.pushWord word line) where
  words := by simp [Tables.pushWord, Chunk.pushWord, Chunk.words, h.words]
  lines := by rw [Tables.pushWord, Array.toList_push, h.lines, Chunk.lines_pushWord]
  opcodes k := (h.opcodes k).trans (Chunk.opcodeAt?_pushWord ..).symm

/-- An opcode is recorded before its word is there, so at the size of the code without it. -/
theorem pushOpcode (op : Opcode) (line : Nat) :
    (t.pushOpcode op line).Represents (c.pushOpcode op line) where
  words := by simp [Tables.pushOpcode, Tables.pushWord, Chunk.pushOpcode, Chunk.words, h.words]
  lines := by
    rw [Tables.pushOpcode, Tables.pushWord, Array.toList_push, h.lines, Chunk.lines_pushOpcode]
  opcodes k := by
    rw [Tables.pushOpcode, Tables.pushWord, Chunk.opcodeAt?_pushOpcode, Std.TreeMap.getElem?_insert,
      h.size, h.opcodes]
    simp only [Std.compare_eq_iff_eq, eq_comm (a := k)]

theorem pushWide (value : UInt64) (line : Nat) :
    (t.pushWide value line).Represents (c.pushWide value line) :=
  (h.pushWord _ line).pushWord _ line

/-- Overwriting a word reaches the table of words only. -/
theorem patch? (offset : Nat) (word : UInt32) :
    Option.Rel Represents (t.patch? offset word) (c.patch? offset word) := by
  by_cases hlt : offset < c.cells.size
  · rw [Tables.patch?, dif_pos (h.size ▸ hlt), Chunk.patch?, dif_pos hlt]
    refine .some ⟨?_, ?_, fun k ↦ ?_⟩
    · simp only [Array.toList_set, h.words, Chunk.words, List.map_set]
    · exact h.lines.trans (Chunk.lines_patch? (dif_pos hlt)).symm
    · exact (h.opcodes k).trans (Chunk.opcodeAt?_patch? (dif_pos hlt) k).symm
  · rw [Tables.patch?, dif_neg (h.size ▸ hlt), Chunk.patch?, dif_neg hlt]
    exact .none

/-- Overwriting a word with an opcode reaches two of the tables. -/
theorem patchOpcode? (offset : Nat) (op : Opcode) :
    Option.Rel Represents (t.patchOpcode? offset op) (c.patchOpcode? offset op) := by
  by_cases hlt : offset < c.cells.size
  · rw [Tables.patchOpcode?, Tables.patch?, dif_pos (h.size ▸ hlt), Option.map_some,
      Chunk.patchOpcode?, dif_pos hlt]
    refine .some ⟨?_, ?_, fun k ↦ ?_⟩
    · simp only [Array.toList_set, h.words, Chunk.words, List.map_set]
    · exact h.lines.trans (Chunk.lines_patchOpcode? (dif_pos hlt)).symm
    · rw [Std.TreeMap.getElem?_insert, h.opcodes, Chunk.opcodeAt?_patchOpcode? (dif_pos hlt)]
      simp only [Std.compare_eq_iff_eq]
  · rw [Tables.patchOpcode?, Tables.patch?, dif_neg (h.size ▸ hlt), Option.map_none,
      Chunk.patchOpcode?, dif_neg hlt]
    exact .none

end Represents

end Tables

namespace Writer

variable {w w' : Writer} {a a' : Assembler}

/-- The writer holds what the assembler holds. -/
structure Represents (w : Writer) (a : Assembler) : Prop where
  tables : w.tables.Represents a.chunk
  opened : w.opened.toList.reverse = a.holes
  line : w.line = a.line

theorem represents_start : Writer.start.Represents .start := ⟨Tables.represents_empty, rfl, rfl⟩

namespace Represents

variable (h : w.Represents a)

include h

theorem appendHole : w.appendHole.Represents a.appendHole where
  tables := by
    rw [Writer.appendHole, h.line]
    exact h.tables.pushWord 0 a.line
  opened := by
    rw [Writer.appendHole, Array.toList_push, List.reverse_append, h.opened, h.tables.size]
    rfl
  line := h.line

/-- The reservation that is taken is the same one, and what is written to it agrees. -/
theorem close (offset : Nat) (write : Tables → Nat → Option Tables)
    (write' : Chunk → Nat → Option Chunk)
    (hwrite : Option.Rel Tables.Represents (write w.tables offset) (write' a.chunk offset)) :
    Option.Rel Represents (w.close offset write) (a.close offset write') := by
  have hback : w.opened.back? = a.holes.head? := by
    rw [← h.opened, List.head?_reverse, Array.getLast?_toList]
  rw [Writer.close, Assembler.close, hback]
  cases hholes : a.holes with
  | nil => exact .none
  | cons innermost holes =>
    by_cases hinnermost : innermost = offset
    · have hpop : w.opened.pop.toList.reverse = holes := by
        rw [Array.toList_pop, ← List.tail_reverse, h.opened, hholes, List.tail_cons]
      rw [List.head?_cons, if_pos (congrArg some hinnermost)]
      simp only [if_pos hinnermost]
      generalize write w.tables offset = t at hwrite
      generalize write' a.chunk offset = c at hwrite
      cases hwrite with
      | some ht => exact .some ⟨ht, hpop, h.line⟩
      | none => exact .none
    · rw [List.head?_cons, if_neg (fun heq ↦ hinnermost (Option.some.inj heq))]
      simp only [if_neg hinnermost]
      exact .none

theorem fillBy? (handle : Handle) (filling : Filling) :
    Option.Rel Represents (w.fillBy? handle filling) (handle.fill? a filling) := by
  cases handle with
  | value hole =>
    cases filling with
    | word value =>
      exact h.close hole.offset (·.patch? · value) (·.patch? · value)
        (h.tables.patch? hole.offset value)
    | opcode op =>
      exact h.close hole.offset (·.patchOpcode? · op) (·.patchOpcode? · op)
        (h.tables.patchOpcode? hole.offset op)
  | count hole =>
    change Option.Rel Represents (w.fillCount? hole) (a.fillCount? hole)
    rw [Writer.fillCount?, h.tables.size]
    exact h.close hole.offset _ _ (h.tables.patch? hole.offset _)

/-- **One operation** is accepted by both or refused by both. -/
theorem perform? (operation : Writer.Operation) :
    Option.Rel Represents (w.perform? operation) (a.perform? operation) := by
  cases operation with
  | atLine line => exact .some ⟨h.tables, h.opened, rfl⟩
  | opcode op => exact .some ⟨h.line ▸ h.tables.pushOpcode op w.line, h.opened, h.line⟩
  | word word => exact .some ⟨h.line ▸ h.tables.pushWord word w.line, h.opened, h.line⟩
  | wide value => exact .some ⟨h.line ▸ h.tables.pushWide value w.line, h.opened, h.line⟩
  | reserve => exact .some h.appendHole
  | reserveCount => exact .some h.appendHole
  | fill handle filling => exact h.fillBy? handle filling
  | reset => exact .some represents_start

/-- **The two ways of keeping code agree** on every run. -/
theorem run? (operations : List Writer.Operation) :
    Option.Rel Represents (w.run? operations) (a.run? operations) := by
  induction operations generalizing w a with
  | nil => exact .some h
  | cons operation operations ih =>
    rw [Writer.run?, Assembler.run?, List.foldlM_cons, List.foldlM_cons]
    have hstep := h.perform? operation
    generalize w.perform? operation = w' at hstep
    generalize a.perform? operation = a' at hstep
    cases hstep with
    | some h' => exact ih h'
    | none => exact .none

/-- What the writer accepts, the assembler accepts. -/
theorem exists_run {operations : List Writer.Operation} (hrun : w.run? operations = some w') :
    ∃ a', a.run? operations = some a' ∧ w'.Represents a' := by
  have hrel := h.run? operations
  rw [hrun] at hrel
  generalize a.run? operations = a' at hrel
  cases hrel with
  | some h' => exact ⟨_, rfl, h'⟩

end Represents

end Writer

/-! ## The invariant of the assembler -/

namespace Assembler

variable {a a' : Assembler} {handle : Handle} {filling : Filling} {operation : Writer.Operation}
  {operations : List Writer.Operation}

/-- The reserved words are in order, and an opcode that is recorded stands in its place. -/
structure Marked (a : Assembler) : Prop extends a.Sound where
  words : ∀ {k op}, a.chunk.opcodeAt? k = some op → a.chunk.wordAt? k = some op.word

theorem marked_start : start.Marked := ⟨sound_start, nofun⟩

namespace Marked

variable (h : a.Marked)

include h

theorem atLine (line : Nat) : (a.atLine line).Marked :=
  ⟨⟨h.lt_size, h.unmarked, h.decreasing⟩, h.words⟩

theorem opcode (op : Opcode) : (a.opcode op).Marked where
  toSound := h.sound_opcode op
  words {k op'} hk := by
    rw [Assembler.opcode, Chunk.opcodeAt?_pushOpcode] at hk
    rw [Assembler.opcode, Chunk.wordAt?_pushOpcode]
    split at hk
    · next hnew => rw [if_pos hnew, Option.some.inj hk]
    · next hold => rw [if_neg hold, h.words hk]

/-- A word behind all others is behind all that are recorded. -/
theorem word (word : UInt32) : (a.word word).Marked where
  toSound := (h.spares_word (p := fun _ ↦ false) word).sound
  words {k op} hk := by
    rw [Assembler.word, Chunk.opcodeAt?_pushWord] at hk
    have hlt : k < a.chunk.size := Chunk.lt_size_of_opcodeAt? hk
    rw [Assembler.word, Chunk.wordAt?_pushWord, if_neg (Nat.ne_of_lt hlt), h.words hk]

theorem appendHole : a.appendHole.Marked where
  toSound := (h.spares_appendHole (p := fun _ ↦ false)).sound
  words hk := (h.word 0).words hk

/-- A word that is filled was reserved, so nothing was recorded for it. -/
theorem fill? (hfill : handle.fill? a filling = some a') : a'.Marked where
  toSound := (Handle.fill?_ok h.toSound hfill).1
  words {k op} hk := by
    rcases handle.fill?_eq a filling with ⟨word, heq⟩ | ⟨op', heq⟩
    · obtain ⟨chunk, holes, hchunk, hholes, rfl⟩ := exists_of_close (heq ▸ hfill)
      rw [Chunk.opcodeAt?_patch? hchunk] at hk
      have hne : handle.offset ≠ k := by
        rintro rfl
        rw [h.unmarked _ (hholes ▸ List.mem_cons_self)] at hk
        cases hk
      rw [Chunk.wordAt?_patch? hchunk, if_neg hne, h.words hk]
    · obtain ⟨chunk, holes, hchunk, -, rfl⟩ := exists_of_close (heq ▸ hfill)
      rw [Chunk.opcodeAt?_patchOpcode? hchunk] at hk
      rw [Chunk.wordAt?_patchOpcode? hchunk]
      split at hk
      · next hnew => rw [if_pos hnew, Option.some.inj hk]
      · next hold => rw [if_neg hold, h.words hk]

/-- **One operation keeps the invariant.** -/
theorem perform? (hstep : a.perform? operation = some a') : a'.Marked := by
  cases operation with
  | atLine line =>
    cases hstep
    exact h.atLine line
  | opcode op =>
    cases hstep
    exact h.opcode op
  | word word =>
    cases hstep
    exact h.word word
  | wide value =>
    cases hstep
    exact (h.word (Chunk.highWord value)).word (Chunk.lowWord value)
  | reserve =>
    cases hstep
    exact h.appendHole
  | reserveCount =>
    cases hstep
    exact h.appendHole
  | fill handle filling => exact h.fill? hstep
  | reset =>
    cases hstep
    exact marked_start

/-- **The invariant of a run.** -/
theorem run? (hrun : a.run? operations = some a') : a'.Marked := by
  induction operations generalizing a with
  | nil =>
    cases hrun
    exact h
  | cons operation operations ih =>
    rw [Assembler.run?, List.foldlM_cons] at hrun
    obtain ⟨a₁, hstep, hrest⟩ := Option.bind_eq_some_iff.mp hrun
    exact ih (h.perform? hstep) hrest

end Marked

/-! ### Words that are finished -/

/-- One operation within a procedure leaves the finished words as they are. -/
theorem preserves_perform? (hreset : operation ≠ .reset) (hstep : a.perform? operation = some a') :
    a.Preserves a' := by
  cases operation with
  | atLine line =>
    cases hstep
    exact a.preserves_atLine line
  | opcode op =>
    cases hstep
    exact a.preserves_opcode op
  | word word =>
    cases hstep
    exact a.preserves_word word
  | wide value =>
    cases hstep
    exact (a.preserves_word _).trans (preserves_word _ _)
  | reserve =>
    cases hstep
    exact a.preserves_appendHole
  | reserveCount =>
    cases hstep
    exact a.preserves_appendHole
  | fill handle filling =>
    cases handle with
    | value hole =>
      cases filling with
      | word word => exact preserves_fill? hstep
      | opcode op => exact preserves_fillOpcode? hstep
    | count hole => exact preserves_fillCount? hstep
  | reset => exact absurd rfl hreset

/-- So does everything that happens before the procedure ends. -/
theorem preserves_run? (hreset : .reset ∉ operations) (hrun : a.run? operations = some a') :
    a.Preserves a' := by
  induction operations generalizing a with
  | nil =>
    cases hrun
    exact .refl _
  | cons operation operations ih =>
    rw [run?, List.foldlM_cons] at hrun
    obtain ⟨a₁, hstep, hrest⟩ := Option.bind_eq_some_iff.mp hrun
    have hne : operation ≠ .reset := (List.ne_of_not_mem_cons hreset).symm
    exact (preserves_perform? hne hstep).trans (ih (List.not_mem_of_not_mem_cons hreset) hrest)

end Assembler

/-! ## The three tables -/

namespace Writer

variable {w w' : Writer} {a a' : Assembler} {operations later : List Writer.Operation}

/-- The three tables fit together. -/
structure Consistent (w : Writer) : Prop where
  /-- Every word has a line. -/
  lines : w.tables.lines.size = w.tables.words.size
  /-- What is recorded as an opcode is a word of the code, and it is the one of this opcode. -/
  opcodes : ∀ k op, w.tables.opcodes[k]? = some op →
    k < w.tables.words.size ∧ w.tables.words[k]? = some op.word
  /-- Open reservations lie one behind the other. -/
  increasing : w.opened.toList.Pairwise (· < ·)
  /-- They are words of the code. -/
  inside : ∀ k ∈ w.opened, k < w.tables.words.size
  /-- None of them is recorded as an opcode. -/
  unmarked : ∀ k ∈ w.opened, w.tables.opcodes[k]? = none

/-- The finished words are still what they were, with their lines and marks. -/
structure Keeps (w w' : Writer) : Prop where
  words : ∀ k < w.tables.words.size, k ∉ w.opened → w'.tables.words[k]? = w.tables.words[k]?
  lines : ∀ k < w.tables.words.size, k ∉ w.opened → w'.tables.lines[k]? = w.tables.lines[k]?
  opcodes : ∀ k < w.tables.words.size, k ∉ w.opened →
    w'.tables.opcodes[k]? = w.tables.opcodes[k]?

namespace Represents

theorem mem_opened_iff (h : w.Represents a) {k : Nat} : k ∈ w.opened ↔ k ∈ a.holes := by
  rw [← h.opened, List.mem_reverse, Array.mem_toList_iff]

theorem consistent (h : w.Represents a) (ha : a.Marked) : w.Consistent where
  lines := by
    rw [← Array.length_toList, ← Array.length_toList, h.tables.lines, h.tables.words, Chunk.lines,
      Chunk.words, List.length_map, List.length_map]
  opcodes k op hk := by
    rw [h.tables.opcodes] at hk
    rw [h.tables.size, h.tables.getElem?_words]
    exact ⟨Chunk.lt_size_of_opcodeAt? hk, ha.words hk⟩
  increasing := by
    rw [← List.reverse_reverse w.opened.toList, h.opened, List.pairwise_reverse]
    exact ha.decreasing
  inside k hk := h.tables.size ▸ ha.lt_size k (h.mem_opened_iff.mp hk)
  unmarked k hk := (h.tables.opcodes k).trans (ha.unmarked k (h.mem_opened_iff.mp hk))

theorem keeps (h : w.Represents a) (h' : w'.Represents a') (ha : a.Preserves a') : w.Keeps w' := by
  have hcells : ∀ k < w.tables.words.size, k ∉ w.opened → a'.chunk.cells[k]? = a.chunk.cells[k]? :=
    fun k hk hopen ↦ ha.cells (h.tables.size ▸ hk) (h.mem_opened_iff.not.mp hopen)
  refine ⟨fun k hk hopen ↦ ?_, fun k hk hopen ↦ ?_, fun k hk hopen ↦ ?_⟩
  · rw [h.tables.getElem?_words, h'.tables.getElem?_words, Chunk.wordAt?, hcells k hk hopen,
      Chunk.wordAt?]
  · rw [h.tables.getElem?_lines, h'.tables.getElem?_lines, Chunk.lineAt?, hcells k hk hopen,
      Chunk.lineAt?]
  · rw [h.tables.opcodes, h'.tables.opcodes, Chunk.opcodeAt?, hcells k hk hopen, Chunk.opcodeAt?]

end Represents

/-- **What holds after every run.** After any operations of which none is refused,

* the assembler has accepted the same operations and holds the same code;
* the three tables fit together;
* whatever is done afterwards, the words that are not reserved keep their values, their lines and
  their marks until the procedure ends. -/
theorem consistent_of_run (hrun : start.run? operations = some w) :
    (∃ a, Assembler.start.run? operations = some a ∧ w.Represents a) ∧ w.Consistent
    ∧ ∀ later w', .reset ∉ later → w.run? later = some w' → w.Keeps w' := by
  obtain ⟨a, harun, hrepr⟩ := represents_start.exists_run hrun
  refine ⟨⟨a, harun, hrepr⟩, hrepr.consistent (Assembler.marked_start.run? harun), ?_⟩
  intro later w' hreset hlater
  obtain ⟨a', harun', hrepr'⟩ := hrepr.exists_run hlater
  exact hrepr.keeps hrepr' (Assembler.preserves_run? hreset harun')

/-- A reserved opcode in a block that is counted: both are filled, the inner one first, and nothing
else changes. -/
theorem consistent_of_nested_run :
    ∃ w w', start.run? [.opcode .ifChain, .reserveCount, .atLine 2, .reserve, .wide 7] = some w
      ∧ w.run? [.fill (.value ⟨2⟩) (.opcode .list), .fill (.count ⟨1⟩) (.word 0)] = some w'
      ∧ w.Consistent ∧ w.Keeps w' ∧ w'.tables.words.toList = [0x62, 3, 0x51, 0, 7]
      ∧ w'.tables.lines.toList = [1, 1, 2, 2, 2] := by
  have hrun : start.run? [.opcode .ifChain, .reserveCount, .atLine 2, .reserve, .wide 7] = some _ :=
    rfl
  obtain ⟨-, hconsistent, hkeeps⟩ := consistent_of_run hrun
  have hreset : .reset ∉ [Writer.Operation.fill (.value ⟨2⟩) (.opcode .list),
      .fill (.count ⟨1⟩) (.word 0)] := by simp
  exact ⟨_, _, hrun, rfl, hconsistent, hkeeps _ _ hreset rfl, rfl, rfl⟩

end Writer

end Pictograph
