import Pictograph.Proofs.Code.Preservation

/-!
# Integers in code

An integer is loaded from one word, which holds it in two's complement, or from two, the high word
first. This module reads the integer back off the words, as the interpreter does, and says for which
integers one word is enough.

## Main definitions

* `Chunk.integerAt?`: the integer that is loaded at an offset.
* `Chunk.StaysIn`: from an offset on, what a chunk has another one has as well.

## Main results

* `Chunk.wideAt?_pushWide`: two words hold any 64-bit operand.
* `Int64.toInt64_toInt32_of_natAbs_le`: one word holds an integer of 31 bits and a sign.
* `Chunk.StaysIn.integerAt?`: what is loaded depends on the words of the instruction alone.
-/

namespace Pictograph

/-! ## Words -/

/-- The high word and the low word make up the operand. -/
theorem Chunk.highWord_or_lowWord (value : UInt64) :
    (highWord value).toUInt64 <<< 32 ||| (lowWord value).toUInt64 = value := by
  have hlt := value.toNat_lt
  have hor := Nat.shiftLeft_add_eq_or_of_lt (Nat.mod_lt value.toNat (Nat.two_pow_pos 32))
    (value.toNat / 2 ^ 32)
  apply UInt64.toNat_inj.mp
  simp only [highWord, lowWord, UInt64.toNat_or, UInt64.toNat_shiftLeft, UInt32.toNat_toUInt64,
    UInt64.toNat_toUInt32, UInt64.toNat_shiftRight, UInt64.reduceToNat, Nat.shiftRight_eq_div_pow,
    Nat.reduceMod]
  rw [Nat.mod_eq_of_lt (by omega : value.toNat / 2 ^ 32 < 2 ^ 32), Nat.mod_eq_of_lt ?_, ← hor]
  · omega
  · rw [Nat.shiftLeft_eq]
    omega

/-- One word holds an integer of 31 bits and a sign. -/
theorem Int64.toInt64_toInt32_of_natAbs_le {value : Int64}
    (h : value.toInt.natAbs ≤ 0x7FFFFFFF) : value.toInt32.toInt64 = value := by
  rw [← Int64.toInt_inj, Int32.toInt_toInt64, Int64.toInt_toInt32]
  exact Int.bmod_eq_of_le (by omega) (by omega)

/-- A number of 31 bits is what it is also if its highest bit is taken for a sign. -/
theorem UInt64.natAbs_toInt_toInt64_of_lt {number : UInt64} (h : number < 0x80000000) :
    number.toInt64.toInt.natAbs ≤ 0x7FFFFFFF := by
  have hlt : number.toNat < 2 ^ 31 := UInt64.lt_iff_toNat_lt.mp h
  rw [Int64.toInt, UInt64.toBitVec_toInt64, BitVec.toInt_eq_toNat_of_lt]
  · simp only [UInt64.toNat_toBitVec]
    omega
  · simp only [UInt64.toNat_toBitVec]
    omega

theorem UInt64.toUInt32_eq_toInt64 (number : UInt64) :
    number.toUInt32 = number.toInt64.toInt32.toUInt32 := by
  apply UInt32.toBitVec_inj.mp
  rw [UInt64.toBitVec_toUInt32, Int32.toBitVec_toUInt32, Int64.toBitVec_toInt32,
    UInt64.toBitVec_toInt64, BitVec.signExtend_eq_setWidth_of_le _ (by omega)]

theorem UInt64.toInt64_inj {number number' : UInt64} (h : number.toInt64 = number'.toInt64) :
    number = number' := by
  rw [← UInt64.toUInt64_toInt64 number, h, UInt64.toUInt64_toInt64]

namespace Chunk

/-! ## Chunks with the same words -/

/-- What a chunk has from an offset on, another one has as well. -/
def StaysIn (c c' : Chunk) (offset : Nat) : Prop :=
  ∀ k, offset ≤ k → k < c.size → c'.cells[k]? = c.cells[k]?

/-- A chunk with more cells behind its own. -/
def followedBy (c : Chunk) (later : Array Cell) : Chunk := ⟨c.cells ++ later⟩

theorem staysIn_followedBy (c : Chunk) (later : Array Cell) (offset : Nat) :
    c.StaysIn (c.followedBy later) offset :=
  fun _ _ hk ↦ Array.getElem?_append_left hk

/-- The integer that is loaded at an offset, if the instruction there loads one. -/
def integerAt? (c : Chunk) (offset : Nat) : Option Int64 := do
  match Opcode.ofWord? (← c.wordAt? offset) with
  | some .integer => return (← c.wordAt? (offset + 1)).toInt32.toInt64
  | some .wideInteger => return (← c.wideAt? (offset + 1)).toInt64
  | _ => none

variable {c c' : Chunk} {offset : Nat}

theorem StaysIn.mono (h : c.StaysIn c' offset) {offset' : Nat} (hle : offset ≤ offset') :
    c.StaysIn c' offset' := fun k hk ↦ h k (Nat.le_trans hle hk)

theorem StaysIn.wordAt? (h : c.StaysIn c' offset) {w : UInt32} (hw : c.wordAt? offset = some w) :
    c'.wordAt? offset = some w := by
  rw [Chunk.wordAt?, h offset (Nat.le_refl _) (lt_size_of_wordAt? hw)]
  exact hw

theorem StaysIn.wideAt? (h : c.StaysIn c' offset) {value : UInt64}
    (hv : c.wideAt? offset = some value) : c'.wideAt? offset = some value := by
  obtain ⟨high, hhigh, hv⟩ := Option.bind_eq_some_iff.mp hv
  obtain ⟨low, hlow, hv⟩ := Option.bind_eq_some_iff.mp hv
  rw [Chunk.wideAt?, h.wordAt? hhigh, (h.mono (Nat.le_succ _)).wordAt? hlow]
  exact hv

theorem integerAt?_of_word {w : UInt32} (h : c.wordAt? offset = some Opcode.integer.word)
    (hw : c.wordAt? (offset + 1) = some w) : c.integerAt? offset = some w.toInt32.toInt64 := by
  rw [integerAt?, h, Option.bind_eq_bind, Option.bind_some, Opcode.ofWord?_word, hw]
  rfl

theorem integerAt?_of_wide {value : UInt64} (h : c.wordAt? offset = some Opcode.wideInteger.word)
    (hw : c.wideAt? (offset + 1) = some value) : c.integerAt? offset = some value.toInt64 := by
  rw [integerAt?, h, Option.bind_eq_bind, Option.bind_some, Opcode.ofWord?_word, hw]
  rfl

/-- What is loaded depends on the words of the instruction alone. -/
theorem StaysIn.integerAt? (h : c.StaysIn c' offset) {value : Int64}
    (hv : c.integerAt? offset = some value) : c'.integerAt? offset = some value := by
  have hnext : c.StaysIn c' (offset + 1) := h.mono (Nat.le_succ _)
  obtain ⟨w, hw, hv⟩ := Option.bind_eq_some_iff.mp hv
  rw [Chunk.integerAt?, h.wordAt? hw, Option.bind_eq_bind, Option.bind_some]
  split at hv
  · obtain ⟨w', hw', hv⟩ := Option.bind_eq_some_iff.mp hv
    rw [hnext.wordAt? hw']
    exact hv
  · obtain ⟨value', hvalue', hv⟩ := Option.bind_eq_some_iff.mp hv
    rw [hnext.wideAt? hvalue']
    exact hv
  · cases hv

/-! ## Chunks that are written -/

/-- **Two words hold any 64-bit operand.** -/
theorem wideAt?_pushWide (c : Chunk) (value : UInt64) (line : Nat) :
    (c.pushWide value line).wideAt? c.size = some value := by
  have hhigh : (c.pushWide value line).wordAt? c.size = some (highWord value) := by
    rw [pushWide, wordAt?_pushWord, size_pushWord, if_neg (by omega), wordAt?_pushWord, if_pos rfl]
  have hlow : (c.pushWide value line).wordAt? (c.size + 1) = some (lowWord value) := by
    rw [pushWide, wordAt?_pushWord, size_pushWord, if_pos rfl]
  rw [wideAt?, hhigh, hlow]
  exact congrArg some (highWord_or_lowWord value)

/-- An opcode and one word behind it. -/
theorem integerAt?_pushWord (hsize : c.size = offset + 1)
    (hop : c.wordAt? offset = some Opcode.integer.word) (w : UInt32) (line : Nat) :
    (c.pushWord w line).integerAt? offset = some w.toInt32.toInt64 := by
  refine integerAt?_of_word ?_ ?_
  · rw [wordAt?_pushWord, if_neg (by omega), hop]
  · rw [wordAt?_pushWord, if_pos hsize.symm]

/-- An opcode and two words behind it. -/
theorem integerAt?_pushWide (hsize : c.size = offset + 1)
    (hop : c.wordAt? offset = some Opcode.wideInteger.word) (value : UInt64) (line : Nat) :
    (c.pushWide value line).integerAt? offset = some value.toInt64 := by
  refine integerAt?_of_wide ?_ ?_
  · rw [pushWide, wordAt?_pushWord, size_pushWord, if_neg (by omega), wordAt?_pushWord,
      if_neg (by omega), hop]
  · rw [← hsize, wideAt?_pushWide]

end Chunk

end Pictograph
