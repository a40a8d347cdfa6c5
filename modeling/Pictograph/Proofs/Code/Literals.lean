import Mathlib.Data.List.Basic
import Pictograph.Code.StringTable
import Pictograph.Proofs.Code.Offsets
import Pictograph.Proofs.Code.Outline

/-!
# String literals in code

A string literal is written as an opcode with a position in the string table behind it. This module
reads these positions off a chunk, and says what else may be written without touching them: words
and other opcodes are appended, and a reserved word is filled. Reserved words are the only ones that
change after they were written. So no literal is lost as long as none of its two words is reserved,
and nothing in front of the reserved words changes at all.

## Main definitions

* `Chunk.stringOperands`: the operands of the string instructions of a chunk.
* `Assembler.Edit`: a step in writing code, other than a string literal.
* `Assembler.Clear`: no word of a string literal is reserved.

## Main results

* `StringTable.intern_of_eraseDups`: a table that holds the strings met so far, each of them once,
  goes on to do so.
* `Assembler.Edit.operands`: the string literals stay as they are.
* `Assembler.Edit.take`: what stands in front of all reserved words stays as it is.
-/

namespace Pictograph

/-! ## Distinct strings -/

section

variable {α : Type} [BEq α] [LawfulBEq α] {a : α} {l : List α}

theorem List.nodup_eraseDups : ∀ l : List α, l.eraseDups.Nodup
  | [] => .nil
  | a :: l => by
    rw [List.eraseDups_cons, List.nodup_cons]
    refine ⟨fun h ↦ ?_, nodup_eraseDups _⟩
    rw [List.mem_eraseDups, List.mem_filter] at h
    simp at h
termination_by l => l.length
decreasing_by exact Nat.lt_succ_of_le (List.length_filter_le _ _)

/-- Strings that come later do not move those that were there before. -/
theorem List.idxOf_eraseDups_append (h : a ∈ l) (l' : List α) :
    (l ++ l').eraseDups.idxOf a = l.eraseDups.idxOf a := by
  rw [List.eraseDups_append, List.idxOf_append_of_mem (List.mem_eraseDups.mpr h)]

/-- A string that was met before is no further one. -/
theorem List.eraseDups_concat_of_mem (h : a ∈ l) : (l ++ [a]).eraseDups = l.eraseDups := by
  have hnothing : [a].removeAll l = [] := by simp [List.removeAll, h]
  rw [List.eraseDups_append, hnothing, List.eraseDups_nil, List.append_nil]

/-- A string that is new comes behind the others. -/
theorem List.eraseDups_concat_of_notMem (h : a ∉ l) :
    (l ++ [a]).eraseDups = l.eraseDups ++ [a] := by
  have hkept : [a].removeAll l = [a] := by simp [List.removeAll, h]
  have hone : [a].eraseDups = [a] := by simp [List.eraseDups_cons]
  rw [List.eraseDups_append, hkept, hone]

theorem List.idxOf_eraseDups_concat_of_notMem (h : a ∉ l) :
    (l ++ [a]).eraseDups.idxOf a = l.eraseDups.length := by
  rw [eraseDups_concat_of_notMem h, List.idxOf_append_of_notMem (mt List.mem_eraseDups.mp h),
    List.idxOf_cons_self, Nat.add_zero]

end

/-! ## The string table -/

/-- **Interning keeps a table exact.** If it holds the strings met so far in the order in which they
were met first, it does so afterwards, and the position is the one in that order. -/
theorem StringTable.intern_of_eraseDups {t : StringTable} {met : List String}
    (h : t.strings.toList = met.eraseDups) (s : String) :
    (t.intern s).2.strings.toList = (met ++ [s]).eraseDups
      ∧ (t.intern s).1 = (met ++ [s]).eraseDups.idxOf s := by
  obtain ⟨⟨strings⟩⟩ := t
  obtain rfl : strings = met.eraseDups := h
  rw [intern, List.findIdx?_toArray]
  by_cases hs : s ∈ met
  · have hfound : met.eraseDups.findIdx? (· == s) = some (met.eraseDups.idxOf s) :=
      List.findIdx?_eq_some_of_exists ⟨s, List.mem_eraseDups.mpr hs, beq_self_eq_true s⟩
    rw [List.eraseDups_concat_of_mem hs, hfound]
    exact ⟨rfl, rfl⟩
  · have hnone : met.eraseDups.findIdx? (· == s) = none :=
      List.findIdx?_eq_none_iff.mpr fun x hx ↦
        beq_false_of_ne fun he ↦ hs (List.mem_eraseDups.mp (he ▸ hx))
    rw [List.idxOf_eraseDups_concat_of_notMem hs, List.eraseDups_concat_of_notMem hs, hnone]
    exact ⟨Array.toList_push, rfl⟩

/-- A table only grows. -/
theorem StringTable.prefix_intern (t : StringTable) (s : String) :
    t.strings.toList <+: (t.intern s).2.strings.toList := by
  unfold intern
  split
  · exact List.prefix_rfl
  · rw [Array.toList_push]
    exact List.prefix_append _ _

/-! ## String instructions -/

/-- The word behind each string instruction, in the order of the code. -/
def Chunk.stringOperands (c : Chunk) : List (Option UInt32) :=
  (c.marks.filter (·.2 == .string)).map fun (offset, _) ↦ c.wordAt? (offset + 1)

/-- Whether a word was written as a string instruction. -/
def Cell.isString (cell : Cell) : Bool := cell.mark == some .string

/-- The word behind each string instruction among some words. -/
def stringOperandsIn : List Cell → List (Option UInt32)
  | [] => []
  | cell :: cells =>
    if cell.isString then
      cells.head?.map (·.word) :: stringOperandsIn cells
    else
      stringOperandsIn cells

/-- The string instructions among the last cells of a chunk. -/
theorem Chunk.stringOperandsIn_cells {c : Chunk} (cells before : List Cell)
    (hc : c.cells.toList = before ++ cells) :
    ((((cells.zipIdx before.length).filterMap fun (cell, offset) ↦
      cell.mark.map (offset, ·)).filter (·.2 == .string)).map fun (offset, _) ↦
        c.wordAt? (offset + 1)) = stringOperandsIn cells := by
  induction cells generalizing before with
  | nil => rfl
  | cons cell cells ih =>
    have ih := ih (before ++ [cell]) (by rw [hc, List.append_cons])
    rw [List.length_append, List.length_singleton] at ih
    rw [List.zipIdx_cons, stringOperandsIn, Cell.isString]
    have hword : c.wordAt? (before.length + 1) = cells.head?.map (·.word) := by
      rw [wordAt?, ← Array.getElem?_toList, hc, List.append_cons,
        List.getElem?_append_right (by rw [List.length_append]; exact Nat.le_refl _)]
      rw [List.length_append, List.length_singleton, Nat.sub_self, List.head?_eq_getElem?]
    cases hm : cell.mark with
    | none =>
      rw [List.filterMap_cons_none (by dsimp only; rw [hm]; rfl), ih]
      rfl
    | some op =>
      rw [List.filterMap_cons_some (b := (before.length, op)) (by dsimp only; rw [hm]; rfl),
        List.filter_cons]
      by_cases hop : op = .string
      · subst hop
        rw [if_pos (by rfl), if_pos (by rfl), List.map_cons]
        exact congrArg₂ List.cons hword ih
      · rw [if_neg (by simpa using hop), if_neg (by simpa using hop), ih]

theorem Chunk.stringOperands_eq (c : Chunk) :
    c.stringOperands = stringOperandsIn c.cells.toList := stringOperandsIn_cells _ [] rfl

/-- The word at a position belongs to no string instruction: it is not one, and none stands in front
of it. -/
def Spare (cells : List Cell) (i : Nat) : Prop :=
  ∀ j cell, (j = i ∨ j + 1 = i) → cells[j]? = some cell → cell.isString = false

theorem Spare.of_cons {cell : Cell} {cells : List Cell} {i : Nat}
    (h : Spare (cell :: cells) (i + 1)) : Spare cells i := by
  intro j x hj hx
  exact h (j + 1) x (by omega) (by rwa [List.getElem?_cons_succ])

theorem Spare.append {cells : List Cell} {cell : Cell} {i : Nat} (h : Spare cells i)
    (hs : cell.isString = false) : Spare (cells ++ [cell]) i := by
  intro j x hj hx
  by_cases hlt : j < cells.length
  · rw [List.getElem?_append_left hlt] at hx
    exact h j x hj hx
  · rw [List.getElem?_append_right (Nat.le_of_not_lt hlt)] at hx
    obtain rfl : x = cell := List.mem_singleton.mp (List.mem_of_getElem? hx)
    exact hs

theorem Spare.set {cells : List Cell} {cell : Cell} {i k : Nat} (h : Spare cells i)
    (hs : cell.isString = false) : Spare (cells.set k cell) i := by
  intro j x hj hx
  by_cases hjk : k = j
  · subst hjk
    rw [List.getElem?_set_self' ] at hx
    obtain ⟨y, -, rfl⟩ := Option.map_eq_some_iff.mp hx
    exact hs
  · rw [List.getElem?_set_ne hjk] at hx
    exact h j x hj hx

/-- The place behind a word that is no string instruction is spare. -/
theorem Spare.behind (cells : List Cell) {cell : Cell} (hs : cell.isString = false) :
    Spare (cells ++ [cell]) (cells ++ [cell]).length := by
  rw [List.length_append, List.length_singleton]
  intro j x hj hx
  have hlt : j < cells.length + 1 := by
    have := (List.getElem?_eq_some_iff.mp hx).1
    rwa [List.length_append, List.length_singleton] at this
  obtain rfl : j = cells.length := by omega
  rw [List.getElem?_concat_length] at hx
  cases hx
  exact hs

theorem stringOperandsIn_append {cells : List Cell} (h : Spare cells cells.length)
    (cells' : List Cell) :
    stringOperandsIn (cells ++ cells') = stringOperandsIn cells ++ stringOperandsIn cells' := by
  induction cells with
  | nil => rfl
  | cons cell cells ih =>
    rw [List.cons_append, stringOperandsIn, stringOperandsIn, ih h.of_cons]
    by_cases hs : cell.isString
    · rw [if_pos hs, if_pos hs, List.cons_append]
      cases cells with
      | nil => cases (h 0 cell (.inr rfl) rfl).symm.trans hs
      | cons next cells => rfl
    · rw [if_neg hs, if_neg hs]

theorem stringOperandsIn_set {cells : List Cell} {i : Nat} {cell : Cell} (h : Spare cells i)
    (hc : cell.isString = false) :
    stringOperandsIn (cells.set i cell) = stringOperandsIn cells := by
  induction cells generalizing i with
  | nil => rfl
  | cons first cells ih =>
    cases i with
    | zero =>
      have hf := h 0 first (.inl rfl) rfl
      rw [List.set_cons_zero, stringOperandsIn, stringOperandsIn, hc, hf]
    | succ i =>
      rw [List.set_cons_succ, stringOperandsIn, stringOperandsIn, ih h.of_cons]
      by_cases hs : first.isString
      · have hi : i ≠ 0 := by
          rintro rfl
          cases (h 0 first (.inr rfl) rfl).symm.trans hs
        rw [if_pos hs, if_pos hs, List.head?_eq_getElem?, List.head?_eq_getElem?,
          List.getElem?_set_ne hi]
      · rw [if_neg hs, if_neg hs]

/-! ## Edits -/

namespace Assembler

/-- The words written so far. -/
def cells (a : Assembler) : List Cell := a.chunk.cells.toList

/-- A step in writing code that leaves the string literals alone. -/
inductive Edit (a a' : Assembler) : Prop
  /-- Nothing is written. -/
  | keep (hcells : a'.cells = a.cells) (hholes : a'.holes = a.holes)
  /-- A word is appended, which may be reserved. -/
  | push (cell : Cell) (hcells : a'.cells = a.cells ++ [cell]) (hs : cell.isString = false)
      (hholes : a'.holes = a.holes ∨ a'.holes = a.cells.length :: a.holes)
  /-- A reserved word is filled. -/
  | fill (i : Nat) (cell : Cell) (hcells : a'.cells = a.cells.set i cell)
      (hs : cell.isString → ∃ old, a.cells[i]? = some old ∧ old.isString)
      (hholes : a.holes = i :: a'.holes)

variable {a a' : Assembler} {n : Nat}

/-- The reserved words are among those that are written, and they belong to no string literal. The
last word is no string instruction. -/
structure Clear (a : Assembler) : Prop where
  below : ∀ i ∈ a.holes, i < a.cells.length
  spare : ∀ i ∈ a.holes, Spare a.cells i
  last : Spare a.cells a.cells.length

theorem clear_start : start.Clear where
  below _ h := nomatch h
  spare _ h := nomatch h
  last _ _ _ h := nomatch h

/-- **An edit leaves the string literals alone.** -/
theorem Edit.operands (h : Edit a a') (hc : a.Clear) :
    a'.Clear ∧ stringOperandsIn a'.cells = stringOperandsIn a.cells := by
  cases h with
  | keep hcells hholes =>
    refine ⟨⟨?_, ?_, ?_⟩, by rw [hcells]⟩
    · rw [hcells, hholes]
      exact hc.below
    · rw [hcells, hholes]
      exact hc.spare
    · rw [hcells]
      exact hc.last
  | push cell hcells hs hholes =>
    have hlast : stringOperandsIn [cell] = [] := by
      rw [stringOperandsIn, hs]
      rfl
    rw [hcells, stringOperandsIn_append hc.last, hlast, List.append_nil]
    refine ⟨⟨fun i hi ↦ ?_, fun i hi ↦ ?_, ?_⟩, rfl⟩
    · rw [hcells, List.length_append, List.length_singleton]
      rcases hholes with hholes | hholes
      · exact Nat.lt_succ_of_lt (hc.below i (hholes ▸ hi))
      · rcases List.mem_cons.mp (hholes ▸ hi) with rfl | hi
        · exact Nat.lt_succ_self _
        · exact Nat.lt_succ_of_lt (hc.below i hi)
    · rw [hcells]
      rcases hholes with hholes | hholes
      · exact (hc.spare i (hholes ▸ hi)).append hs
      · rcases List.mem_cons.mp (hholes ▸ hi) with rfl | hi
        · exact hc.last.append hs
        · exact (hc.spare i hi).append hs
    · rw [hcells]
      exact .behind _ hs
  | fill i cell hcells hs hholes =>
    have hspare : Spare a.cells i := hc.spare i (hholes ▸ List.mem_cons_self)
    have hcell : cell.isString = false := by
      rw [Bool.eq_false_iff]
      intro hstring
      obtain ⟨old, hold, hstring⟩ := hs hstring
      cases (hspare i old (.inl rfl) hold).symm.trans hstring
    rw [hcells, stringOperandsIn_set hspare hcell]
    refine ⟨⟨fun j hj ↦ ?_, fun j hj ↦ ?_, ?_⟩, rfl⟩
    · rw [hcells, List.length_set]
      exact hc.below j (hholes ▸ List.mem_cons_of_mem _ hj)
    · rw [hcells]
      exact (hc.spare j (hholes ▸ List.mem_cons_of_mem _ hj)).set hcell
    · rw [hcells, List.length_set]
      exact hc.last.set hcell

/-- **An edit changes nothing in front of all reserved words.** -/
theorem Edit.take (h : Edit a a') (hn : n ≤ a.cells.length) (hh : ∀ i ∈ a.holes, n ≤ i) :
    n ≤ a'.cells.length ∧ (∀ i ∈ a'.holes, n ≤ i) ∧ a'.cells.take n = a.cells.take n := by
  cases h with
  | keep hcells hholes =>
    rw [hcells, hholes]
    exact ⟨hn, hh, rfl⟩
  | push cell hcells hs hholes =>
    refine ⟨?_, fun i hi ↦ ?_, ?_⟩
    · rw [hcells, List.length_append]
      exact Nat.le_add_right_of_le hn
    · rcases hholes with hholes | hholes
      · exact hh i (hholes ▸ hi)
      · rcases List.mem_cons.mp (hholes ▸ hi) with rfl | hi
        · exact hn
        · exact hh i hi
    · rw [hcells, List.take_append_of_le_length hn]
  | fill i cell hcells hs hholes =>
    refine ⟨?_, fun j hj ↦ hh j (hholes ▸ List.mem_cons_of_mem _ hj), ?_⟩
    · rw [hcells, List.length_set]
      exact hn
    · rw [hcells, List.take_set, List.set_eq_of_length_le]
      rw [List.length_take]
      exact Nat.le_trans (Nat.min_le_left _ _) (hh i (hholes ▸ List.mem_cons_self))

/-! ### Steps of the assembler -/

theorem edit_atLine (line : Nat) : Edit a (a.atLine line) := .keep rfl rfl

theorem edit_opcode {op : Opcode} (h : op ≠ .string) : Edit a (a.opcode op) := by
  refine .push ⟨op.word, a.line, some op⟩ Array.toList_push ?_ (.inl rfl)
  exact beq_false_of_ne fun he ↦ h (Option.some.inj he)

theorem edit_word (w : UInt32) : Edit a (a.word w) :=
  .push ⟨w, a.line, none⟩ Array.toList_push rfl (.inl rfl)

theorem edit_appendHole : Edit a a.appendHole :=
  .push ⟨0, a.line, none⟩ Array.toList_push rfl
    (.inr (congrArg (· :: a.holes) a.chunk.cells.length_toList.symm))

/-- What fills a reserved word writes to that word alone. -/
theorem edit_close {offset : Nat} {write : Chunk → Nat → Option Chunk}
    (hw : ∀ c, write a.chunk offset = some c → ∃ cell, c.cells.toList = a.cells.set offset cell
      ∧ (cell.isString → ∃ old, a.cells[offset]? = some old ∧ old.isString))
    (h : a.close offset write = some a') : Edit a a' := by
  obtain ⟨c, holes, hc, hholes, rfl⟩ := exists_of_close h
  obtain ⟨cell, hcells, hs⟩ := hw c hc
  exact .fill offset cell hcells hs hholes

theorem edit_patch {offset : Nat} {w : UInt32} (h : a.close offset (·.patch? · w) = some a') :
    Edit a a' := by
  refine edit_close (fun c hc ↦ ?_) h
  unfold Chunk.patch? at hc
  split at hc
  · next hlt =>
    cases hc
    refine ⟨_, Array.toList_set _ _ _ hlt, fun hs ↦ ⟨a.chunk.cells[offset], ?_, hs⟩⟩
    rw [cells, Array.getElem?_toList, Array.getElem?_eq_getElem hlt]
  · cases hc

theorem edit_fillOpcode? {hole : Hole} {op : Opcode} (hop : op ≠ .string)
    (h : a.fillOpcode? hole op = some a') : Edit a a' := by
  refine edit_close (fun c hc ↦ ?_) h
  unfold Chunk.patchOpcode? at hc
  split at hc
  · next hlt =>
    cases hc
    refine ⟨_, Array.toList_set _ _ _ hlt, fun hs ↦ absurd ?_ hop⟩
    exact Option.some.inj (beq_iff_eq.mp hs)
  · cases hc

/-! ### Literals -/

/-- A string literal with its position. -/
def literal (a : Assembler) (index : Nat) : Assembler :=
  (a.opcode .string).word (UInt32.ofNat index)

theorem cells_literal (a : Assembler) (index : Nat) : (a.literal index).cells
    = a.cells ++ [⟨Opcode.string.word, a.line, some .string⟩]
      ++ [⟨UInt32.ofNat index, a.line, none⟩] := by
  rw [literal, cells, word, Chunk.pushWord, Array.toList_push]
  exact congrArg (· ++ _) Array.toList_push

/-- A literal is written behind those that are there. -/
theorem operands_literal (hc : a.Clear) (index : Nat) : (a.literal index).Clear
    ∧ stringOperandsIn (a.literal index).cells
      = stringOperandsIn a.cells ++ [some (UInt32.ofNat index)] := by
  have hholes : (a.literal index).holes = a.holes := rfl
  rw [cells_literal, List.append_assoc, stringOperandsIn_append hc.last]
  refine ⟨⟨fun i hi ↦ ?_, fun i hi ↦ ?_, ?_⟩, rfl⟩
  · rw [cells_literal, List.append_assoc, List.length_append]
    exact Nat.lt_add_right _ (hc.below i hi)
  · -- reserved words are in front of the literal
    intro j x hj hx
    have hlt := hc.below i hi
    rw [cells_literal, List.append_assoc, List.getElem?_append_left (by omega)] at hx
    exact hc.spare i hi j x hj hx
  · rw [cells_literal]
    exact .behind _ rfl

theorem take_literal (hn : n ≤ a.cells.length) (index : Nat) :
    n ≤ (a.literal index).cells.length ∧ (a.literal index).cells.take n = a.cells.take n := by
  rw [cells_literal, List.append_assoc, List.length_append, List.take_append_of_le_length hn]
  exact ⟨Nat.le_add_right_of_le hn, rfl⟩

end Assembler

end Pictograph
