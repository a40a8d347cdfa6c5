import Pictograph.Code.Assembler

/-!
# What stands at an offset

Code that is being written changes in two ways: something is appended, or a reserved word is filled.
So a word that is not reserved stays what it is. A step that writes no opcode of some sort also
leaves the opcodes of that sort where they are.

## Main definitions

* `Assembler.Sound`: the reserved words are in order.
* `Assembler.Spares`: a step that leaves the opcodes of a sort as they are.

## Main results

* `Chunk.opcodeAt?_pushOpcode`, `Chunk.wordAt?_patch?` and their companions: what stands at an
  offset after a word was written.
* `Chunk.lines_pushWord`, `Chunk.lines_patch?` and their companions: the lines after a word was
  written.
* `Assembler.Sound.spares_opcode`, `Assembler.Sound.spares_fillOpcode?` and their companions: the
  steps of the assembler leave opcodes as they are.
-/

namespace Pictograph

namespace Chunk

variable {c c' : Chunk} {op : Opcode} {w : UInt32} {k offset : Nat}

/-! ## Words that are appended -/

theorem opcodeAt?_eq_none (h : c.size ≤ k) : c.opcodeAt? k = none := by
  rw [opcodeAt?, Array.getElem?_eq_none h]
  rfl

theorem lt_size_of_opcodeAt? (h : c.opcodeAt? k = some op) : k < c.size :=
  Nat.lt_of_not_le fun hk ↦ by simp [opcodeAt?_eq_none hk] at h

theorem lt_size_of_wordAt? (h : c.wordAt? k = some w) : k < c.size :=
  Nat.lt_of_not_le fun hk ↦ by simp [wordAt?, Array.getElem?_eq_none hk] at h

theorem size_pushWord (c : Chunk) (w : UInt32) (line : Nat) :
    (c.pushWord w line).size = c.size + 1 := Array.size_push ..

theorem size_pushOpcode (c : Chunk) (op : Opcode) (line : Nat) :
    (c.pushOpcode op line).size = c.size + 1 := Array.size_push ..

theorem opcodeAt?_pushWord (c : Chunk) (w : UInt32) (line k : Nat) :
    (c.pushWord w line).opcodeAt? k = c.opcodeAt? k := by
  rw [opcodeAt?, pushWord, Array.getElem?_push]
  split
  · next hk => rw [opcodeAt?_eq_none (Nat.le_of_eq hk.symm), Option.bind_some]
  · rfl

theorem opcodeAt?_pushOpcode (c : Chunk) (op : Opcode) (line k : Nat) :
    (c.pushOpcode op line).opcodeAt? k = if k = c.size then some op else c.opcodeAt? k := by
  rw [opcodeAt?, pushOpcode, Array.getElem?_push]
  exact apply_ite (Option.bind · Cell.mark) ..

theorem wordAt?_pushWord (c : Chunk) (w : UInt32) (line k : Nat) :
    (c.pushWord w line).wordAt? k = if k = c.size then some w else c.wordAt? k := by
  rw [wordAt?, pushWord, Array.getElem?_push]
  exact apply_ite (Option.map Cell.word) ..

theorem wordAt?_pushOpcode (c : Chunk) (op : Opcode) (line k : Nat) :
    (c.pushOpcode op line).wordAt? k = if k = c.size then some op.word else c.wordAt? k := by
  rw [wordAt?, pushOpcode, Array.getElem?_push]
  exact apply_ite (Option.map Cell.word) ..

/-! ## Words that are overwritten -/

theorem size_of_patch? (h : c.patch? offset w = some c') : c'.size = c.size := by
  unfold patch? at h
  split at h
  · next hlt =>
    cases h
    exact Array.size_set hlt
  · cases h

theorem size_of_patchOpcode? (h : c.patchOpcode? offset op = some c') : c'.size = c.size := by
  unfold patchOpcode? at h
  split at h
  · next hlt =>
    cases h
    exact Array.size_set hlt
  · cases h

theorem opcodeAt?_patch? (h : c.patch? offset w = some c') (k : Nat) :
    c'.opcodeAt? k = c.opcodeAt? k := by
  unfold patch? at h
  split at h
  · next hlt =>
    cases h
    rw [opcodeAt?, opcodeAt?, Array.getElem?_set]
    split
    · next hk => rw [← hk, Array.getElem?_eq_getElem hlt, Option.bind_some, Option.bind_some]
    · rfl
  · cases h

theorem wordAt?_patch? (h : c.patch? offset w = some c') (k : Nat) :
    c'.wordAt? k = if offset = k then some w else c.wordAt? k := by
  unfold patch? at h
  split at h
  · next hlt =>
    cases h
    rw [wordAt?, Array.getElem?_set]
    exact apply_ite (Option.map Cell.word) ..
  · cases h

theorem opcodeAt?_patchOpcode? (h : c.patchOpcode? offset op = some c') (k : Nat) :
    c'.opcodeAt? k = if offset = k then some op else c.opcodeAt? k := by
  unfold patchOpcode? at h
  split at h
  · next hlt =>
    cases h
    rw [opcodeAt?, Array.getElem?_set]
    exact apply_ite (Option.bind · Cell.mark) ..
  · cases h

theorem wordAt?_patchOpcode? (h : c.patchOpcode? offset op = some c') (k : Nat) :
    c'.wordAt? k = if offset = k then some op.word else c.wordAt? k := by
  unfold patchOpcode? at h
  split at h
  · next hlt =>
    cases h
    rw [wordAt?, Array.getElem?_set]
    exact apply_ite (Option.map Cell.word) ..
  · cases h

/-! ## Lines -/

theorem lines_pushWord (c : Chunk) (w : UInt32) (line : Nat) :
    (c.pushWord w line).lines = c.lines ++ [line] := by
  rw [lines, pushWord, Array.toList_push, List.map_append, lines, List.map_singleton]

theorem lines_pushOpcode (c : Chunk) (op : Opcode) (line : Nat) :
    (c.pushOpcode op line).lines = c.lines ++ [line] := by
  rw [lines, pushOpcode, Array.toList_push, List.map_append, lines, List.map_singleton]

/-- A cell that is overwritten keeps its line. -/
theorem lines_set {cell : Cell} (hlt : offset < c.cells.size)
    (hline : cell.line = c.cells[offset].line) :
    lines ⟨c.cells.set offset cell⟩ = c.lines := by
  have hmap : offset < c.lines.length := by simpa [lines] using hlt
  have hsame : c.lines[offset] = cell.line := by simp [lines, hline]
  have hset : lines ⟨c.cells.set offset cell⟩ = c.lines.set offset cell.line := by
    rw [lines, Array.toList_set, List.map_set, lines]
  rw [hset, ← hsame, List.set_getElem_self hmap]

theorem lines_patch? (h : c.patch? offset w = some c') : c'.lines = c.lines := by
  unfold patch? at h
  split at h
  · next hlt =>
    cases h
    exact lines_set hlt rfl
  · cases h

theorem lines_patchOpcode? (h : c.patchOpcode? offset op = some c') : c'.lines = c.lines := by
  unfold patchOpcode? at h
  split at h
  · next hlt =>
    cases h
    exact lines_set hlt rfl
  · cases h

end Chunk

namespace Assembler

variable {a a' a'' : Assembler} {p q : Opcode → Bool}

theorem size_opcode (a : Assembler) (op : Opcode) : (a.opcode op).chunk.size = a.chunk.size + 1 :=
  Chunk.size_pushOpcode ..

theorem size_word (a : Assembler) (w : UInt32) : (a.word w).chunk.size = a.chunk.size + 1 :=
  Chunk.size_pushWord ..

theorem size_appendHole (a : Assembler) : a.appendHole.chunk.size = a.chunk.size + 1 :=
  Chunk.size_pushWord ..

/-! ## Reserved words -/

/-- The reserved words are in order: they are words of the code, none of them is marked as an
opcode, and of any two the one that was reserved later stands behind. -/
structure Sound (a : Assembler) : Prop where
  lt_size : ∀ k ∈ a.holes, k < a.chunk.size
  unmarked : ∀ k ∈ a.holes, a.chunk.opcodeAt? k = none
  decreasing : a.holes.Pairwise (· > ·)

theorem sound_start : start.Sound := ⟨nofun, nofun, .nil⟩

/-- A reservation that is closed was the innermost one. -/
theorem exists_of_close {offset : Nat} {write : Chunk → Nat → Option Chunk}
    (h : a.close offset write = some a') :
    ∃ chunk holes, write a.chunk offset = some chunk ∧ a.holes = offset :: holes
      ∧ a' = { a with chunk, holes } := by
  unfold close at h
  split at h
  · next innermost holes hholes =>
    split at h
    · next hi =>
      obtain ⟨chunk, hchunk, rfl⟩ := Option.map_eq_some_iff.mp h
      exact ⟨chunk, holes, hchunk, hi ▸ hholes, rfl⟩
    · cases h
  · cases h

/-! ## Steps that leave opcodes as they are -/

/-- A step of the assembler leaves the opcodes of a sort as they are, and all words but those that
are reserved. -/
structure Spares (p : Opcode → Bool) (a a' : Assembler) : Prop where
  sound : a'.Sound
  size_le : a.chunk.size ≤ a'.chunk.size
  words : ∀ {k}, k < a.chunk.size → k ∉ a.holes → a'.chunk.wordAt? k = a.chunk.wordAt? k
  holes : ∀ {k}, k ∈ a'.holes → k ∈ a.holes ∨ a.chunk.size ≤ k
  marks : ∀ {k op}, p op → (a'.chunk.opcodeAt? k = some op ↔ a.chunk.opcodeAt? k = some op)

/-- A step that leaves the opcodes of a sort as they are does so with those of a narrower one. -/
theorem Spares.mono (h : Spares p a a') (hpq : ∀ op, q op → p op) : Spares q a a' :=
  { h with marks := fun hq ↦ h.marks (hpq _ hq) }

theorem Spares.trans (h : Spares p a a') (h' : Spares p a' a'') : Spares p a a'' where
  sound := h'.sound
  size_le := Nat.le_trans h.size_le h'.size_le
  words hk hhole := by
    rw [h'.words (Nat.lt_of_lt_of_le hk h.size_le) fun hhole' ↦ ?_, h.words hk hhole]
    exact (h.holes hhole').elim hhole (Nat.not_le_of_lt hk)
  holes hk := by
    rcases h'.holes hk with hk | hk
    · exact h.holes hk
    · exact .inr (Nat.le_trans h.size_le hk)
  marks hp := (h'.marks hp).trans (h.marks hp)

namespace Sound

variable (h : a.Sound)

include h

theorem spares_atLine (line : Nat) : Spares p a (a.atLine line) :=
  ⟨⟨h.lt_size, h.unmarked, h.decreasing⟩, Nat.le_refl _, fun _ _ ↦ rfl, .inl, fun _ ↦ Iff.rfl⟩

/-- What is appended to the code reserves nothing. -/
theorem append {chunk : Chunk} (hsize : chunk.size = a.chunk.size + 1)
    (hmarks : ∀ k < a.chunk.size, chunk.opcodeAt? k = a.chunk.opcodeAt? k) :
    Sound { a with chunk } where
  lt_size k hk := hsize ▸ Nat.lt_succ_of_lt (h.lt_size k hk)
  unmarked k hk := (hmarks k (h.lt_size k hk)).trans (h.unmarked k hk)
  decreasing := h.decreasing

theorem sound_opcode (op : Opcode) : (a.opcode op).Sound :=
  h.append (Chunk.size_pushOpcode ..) fun k hk ↦ by
    rw [Chunk.opcodeAt?_pushOpcode, if_neg (Nat.ne_of_lt hk)]

theorem spares_opcode {op : Opcode} (hop : p op = false) : Spares p a (a.opcode op) where
  sound := h.sound_opcode op
  size_le := a.size_opcode op ▸ Nat.le_succ _
  words hk _ := by rw [opcode, Chunk.wordAt?_pushOpcode, if_neg (Nat.ne_of_lt hk)]
  holes := .inl
  marks {k op'} hp := by
    rw [opcode, Chunk.opcodeAt?_pushOpcode]
    split
    · next hk =>
      -- the new opcode is of another sort, and nothing stood at its offset before
      rw [Chunk.opcodeAt?_eq_none (Nat.le_of_eq hk.symm), Option.some_inj]
      refine iff_of_false (fun he ↦ ?_) nofun
      rw [he, hp] at hop
      cases hop
    · rfl

theorem spares_word (w : UInt32) : Spares p a (a.word w) where
  sound := h.append (Chunk.size_pushWord ..) fun k _ ↦ Chunk.opcodeAt?_pushWord ..
  size_le := a.size_word w ▸ Nat.le_succ _
  words hk _ := by rw [word, Chunk.wordAt?_pushWord, if_neg (Nat.ne_of_lt hk)]
  holes := .inl
  marks _ := by rw [word, Chunk.opcodeAt?_pushWord]

theorem spares_appendHole : Spares p a a.appendHole where
  sound := by
    have hword := (h.spares_word (p := p) 0).sound
    refine ⟨fun k hk ↦ ?_, fun k hk ↦ ?_, List.pairwise_cons.mpr ⟨h.lt_size, h.decreasing⟩⟩
    · rcases List.mem_cons.mp hk with rfl | hk
      · exact Chunk.size_pushWord .. ▸ Nat.lt_succ_self _
      · exact hword.lt_size k hk
    · rcases List.mem_cons.mp hk with rfl | hk
      · exact (Chunk.opcodeAt?_pushWord ..).trans (Chunk.opcodeAt?_eq_none (Nat.le_refl _))
      · exact hword.unmarked k hk
  size_le := (h.spares_word (p := p) 0).size_le
  words := (h.spares_word (p := p) 0).words
  holes hk := (List.mem_cons.mp hk).symm.imp_right (Nat.le_of_eq ·.symm)
  marks := (h.spares_word 0).marks

/-- A reservation is closed by writing to its word, which is not marked as an opcode of the sort. -/
theorem spares_close {offset : Nat} {write : Chunk → Nat → Option Chunk}
    (hclose : a.close offset write = some a')
    (hwrite : ∀ chunk, write a.chunk offset = some chunk → chunk.size = a.chunk.size
      ∧ ∀ k, k ≠ offset → chunk.wordAt? k = a.chunk.wordAt? k
        ∧ chunk.opcodeAt? k = a.chunk.opcodeAt? k)
    (hnew : ∀ chunk op, write a.chunk offset = some chunk → chunk.opcodeAt? offset = some op →
      a.chunk.opcodeAt? offset = none → p op = false) : Spares p a a' := by
  obtain ⟨chunk, holes, hchunk, hholes, rfl⟩ := exists_of_close hclose
  obtain ⟨hsize, hwords⟩ := hwrite chunk hchunk
  have hunmarked := h.unmarked offset (hholes ▸ List.mem_cons_self)
  obtain ⟨hlt, hdecreasing⟩ := List.pairwise_cons.mp (hholes ▸ h.decreasing)
  have hmem {k : Nat} (hk : k ∈ holes) : k ∈ a.holes := hholes ▸ List.mem_cons_of_mem _ hk
  refine ⟨⟨fun k hk ↦ hsize ▸ h.lt_size k (hmem hk), fun k hk ↦ ?_, hdecreasing⟩,
    Nat.le_of_eq hsize.symm, fun {k} _ hk ↦ (hwords k ?_).1, fun hk ↦ .inl (hmem hk),
    fun {k op} hp ↦ ?_⟩
  · exact ((hwords k (Nat.ne_of_lt (hlt k hk))).2).trans (h.unmarked k (hmem hk))
  · rintro rfl
    exact hk (hholes ▸ List.mem_cons_self)
  · by_cases hk : k = offset
    · subst hk
      rw [hunmarked]
      refine iff_of_false (fun he ↦ ?_) nofun
      rw [hnew chunk op hchunk he hunmarked] at hp
      cases hp
    · rw [(hwords k hk).2]

theorem spares_patch {offset : Nat} {w : UInt32}
    (hclose : a.close offset (·.patch? · w) = some a') : Spares p a a' := by
  refine h.spares_close hclose (fun chunk hchunk ↦ ⟨Chunk.size_of_patch? hchunk, fun k hk ↦ ?_⟩)
    fun chunk op hchunk hop hnone ↦ ?_
  · rw [Chunk.wordAt?_patch? hchunk, if_neg hk.symm]
    exact ⟨rfl, Chunk.opcodeAt?_patch? hchunk k⟩
  · rw [Chunk.opcodeAt?_patch? hchunk, hnone] at hop
    cases hop

theorem spares_fill? {hole : Hole} {w : UInt32} (hfill : a.fill? hole w = some a') :
    Spares p a a' := h.spares_patch hfill

theorem spares_fillCount? {hole : CountHole} (hfill : a.fillCount? hole = some a') :
    Spares p a a' := h.spares_patch hfill

theorem spares_fillOpcode? {hole : Hole} {op : Opcode} (hop : p op = false)
    (hfill : a.fillOpcode? hole op = some a') : Spares p a a' := by
  refine h.spares_close hfill (fun chunk hchunk ↦ ?_) fun chunk op' hchunk hop' _ ↦ ?_
  · refine ⟨Chunk.size_of_patchOpcode? hchunk, fun k hk ↦ ?_⟩
    rw [Chunk.wordAt?_patchOpcode? hchunk, Chunk.opcodeAt?_patchOpcode? hchunk, if_neg hk.symm,
      if_neg hk.symm]
    exact ⟨rfl, rfl⟩
  · rw [Chunk.opcodeAt?_patchOpcode? hchunk, if_pos rfl] at hop'
    exact Option.some.inj hop' ▸ hop

end Sound

end Assembler

end Pictograph
