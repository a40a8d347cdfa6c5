import Pictograph.Proofs.Code.Offsets

/-!
# Code that stays as it is

While code is written, words are appended and reserved words are filled. So whatever happens behind
some place of an analysis, the words that stand there already and are not reserved stay what they
are, with their marks and their lines, and none of them becomes reserved.

## Main definitions

* `Assembler.Preserves`: what was written stays as it is.

## Main results

* `Assembler.preserves_opcode`, `Assembler.preserves_fill?` and their companions: the steps of the
  assembler preserve what was written.
* `Assembler.Preserves.cells_eq`: a stretch of code in which no word is reserved stays as it is.
-/

namespace Pictograph

namespace Assembler

variable {a a' a'' : Assembler} {k : Nat}

/-- What was written stays as it is, apart from the words that are reserved. -/
structure Preserves (a a' : Assembler) : Prop where
  size_le : a.chunk.size ≤ a'.chunk.size
  cells : ∀ {k}, k < a.chunk.size → k ∉ a.holes → a'.chunk.cells[k]? = a.chunk.cells[k]?
  holes : ∀ {k}, k ∈ a'.holes → k ∈ a.holes ∨ a.chunk.size ≤ k

namespace Preserves

theorem refl (a : Assembler) : a.Preserves a := ⟨Nat.le_refl _, fun _ _ ↦ rfl, .inl⟩

theorem of_eq (h : a' = a) : a.Preserves a' := h ▸ .refl a

theorem trans (h : a.Preserves a') (h' : a'.Preserves a'') : a.Preserves a'' where
  size_le := Nat.le_trans h.size_le h'.size_le
  cells hk hhole := by
    rw [h'.cells (Nat.lt_of_lt_of_le hk h.size_le) fun hhole' ↦ ?_, h.cells hk hhole]
    exact (h.holes hhole').elim hhole (Nat.not_le_of_lt hk)
  holes hk := by
    rcases h'.holes hk with hk | hle
    · exact h.holes hk
    · exact .inr (Nat.le_trans h.size_le hle)

/-- A stretch of code in which no word is reserved stays as it is. -/
theorem cells_eq (h : a.Preserves a') {first : Nat} (hholes : ∀ k ∈ a.holes, k < first)
    (hfirst : first ≤ k) (hk : k < a.chunk.size) : a'.chunk.cells[k]? = a.chunk.cells[k]? :=
  h.cells hk fun hhole ↦ Nat.not_lt_of_le hfirst (hholes k hhole)

end Preserves

/-! ## Steps of the assembler -/

theorem preserves_atLine (a : Assembler) (line : Nat) : a.Preserves (a.atLine line) :=
  ⟨Nat.le_refl _, fun _ _ ↦ rfl, .inl⟩

/-- What is appended leaves everything in front of it as it is. -/
theorem preserves_push (a : Assembler) (cell : Cell) {holes : List Nat}
    (hholes : ∀ k ∈ holes, k ∈ a.holes ∨ k = a.chunk.size) :
    a.Preserves { a with chunk := ⟨a.chunk.cells.push cell⟩, holes } where
  size_le := Nat.le_of_lt (Nat.lt_of_lt_of_eq (Nat.lt_succ_self _) (Array.size_push ..).symm)
  cells {k} hk _ := by
    have hne : k ≠ a.chunk.cells.size := Nat.ne_of_lt hk
    rw [Array.getElem?_push, if_neg hne]
  holes hk := (hholes _ hk).imp_right fun heq ↦ Nat.le_of_eq heq.symm

theorem preserves_opcode (a : Assembler) (op : Opcode) : a.Preserves (a.opcode op) :=
  a.preserves_push _ fun _ ↦ .inl

theorem preserves_word (a : Assembler) (w : UInt32) : a.Preserves (a.word w) :=
  a.preserves_push _ fun _ ↦ .inl

theorem preserves_appendHole (a : Assembler) : a.Preserves a.appendHole :=
  a.preserves_push _ fun _ hk ↦ (List.mem_cons.mp hk).symm

/-- What fills a reserved word changes no other. -/
theorem preserves_close {offset : Nat} {write : Chunk → Nat → Option Chunk}
    (hwrite : ∀ c, write a.chunk offset = some c → c.size = a.chunk.size
      ∧ ∀ k, k ≠ offset → c.cells[k]? = a.chunk.cells[k]?)
    (h : a.close offset write = some a') : a.Preserves a' := by
  obtain ⟨c, holes, hc, hholes, rfl⟩ := exists_of_close h
  obtain ⟨hsize, hcells⟩ := hwrite c hc
  refine ⟨Nat.le_of_eq hsize.symm, fun {k} _ hk ↦ hcells k ?_, fun hk ↦ .inl ?_⟩
  · rintro rfl
    exact hk (hholes ▸ List.mem_cons_self)
  · exact hholes ▸ List.mem_cons_of_mem _ hk

theorem preserves_patch {offset : Nat} {w : UInt32} (h : a.close offset (·.patch? · w) = some a') :
    a.Preserves a' := by
  refine preserves_close (fun c hc ↦ ⟨Chunk.size_of_patch? hc, fun k hk ↦ ?_⟩) h
  unfold Chunk.patch? at hc
  split at hc
  · cases hc
    rw [Array.getElem?_set, if_neg hk.symm]
  · cases hc

theorem preserves_fill? {hole : Hole} {w : UInt32} (h : a.fill? hole w = some a') :
    a.Preserves a' := preserves_patch h

theorem preserves_fillCount? {hole : CountHole} (h : a.fillCount? hole = some a') :
    a.Preserves a' := preserves_patch h

theorem preserves_fillOpcode? {hole : Hole} {op : Opcode} (h : a.fillOpcode? hole op = some a') :
    a.Preserves a' := by
  refine preserves_close (fun c hc ↦ ⟨Chunk.size_of_patchOpcode? hc, fun k hk ↦ ?_⟩) h
  unfold Chunk.patchOpcode? at hc
  split at hc
  · cases hc
    rw [Array.getElem?_set, if_neg hk.symm]
  · cases hc

end Assembler

end Pictograph
