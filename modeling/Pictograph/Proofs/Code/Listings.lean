import Mathlib.Data.List.Forall2
import Mathlib.Data.List.Sort
import Pictograph.Proofs.Code.Outline

/-!
# Checks on listings

The check for opcodes in order goes through the listing of a chunk once. It holds the next expected
opcode against each one and moves on where they are equal, so it matches every expected opcode as
early as it can and never takes a match back.

Nothing is lost by that. Take an expected list that begins with the opcode the listing begins with.
If the list can be found in the listing at all, it can be found with its first opcode at the very
front, because a later place for it leaves less of the listing to the rest. So the opcodes matched
so far are at every time the longest front part of the expected list that can be found in what the
pass has seen (`exists_matched`). This also says what the message of a failed check means, which
lists the opcodes that are left: the first of them is where every attempt ends.

## Main results

* `Chunk.exists_matched`: what the pass matches, and why it stops there.
* `Chunk.hasInOrder_iff`: the check finds subsequences.
-/

namespace Pictograph.Chunk

/-! ## The pass -/

/-- **What is matched.** The expected opcodes in front of the ones that are left are found in the
listing, and together with the next one they are not. -/
theorem exists_matched (listing expected : List Opcode) :
    ∃ matched, matched ++ unmatched listing expected = expected ∧ matched.Sublist listing
      ∧ ∀ op rest, unmatched listing expected = op :: rest →
        ¬(matched ++ [op]).Sublist listing := by
  induction listing generalizing expected with
  | nil =>
    refine ⟨[], rfl, .slnil, fun op rest _ h ↦ ?_⟩
    exact List.cons_ne_nil _ _ (List.sublist_nil.mp h)
  | cons first listing ih =>
    cases expected with
    | nil => exact ⟨[], rfl, List.nil_sublist _, fun _ _ h ↦ nomatch h⟩
    | cons e expected =>
      rw [unmatched]
      split
      case isTrue heq =>
        subst heq
        obtain ⟨matched, happend, hsub, hstop⟩ := ih expected
        refine ⟨first :: matched, congrArg _ happend, hsub.cons_cons _, fun op rest hrest h ↦ ?_⟩
        exact hstop op rest hrest (List.cons_sublist_cons.mp h)
      case isFalse hne =>
        obtain ⟨matched, happend, hsub, hstop⟩ := ih (e :: expected)
        refine ⟨matched, happend, hsub.cons _, fun op rest hrest h ↦ ?_⟩
        obtain h | ⟨r, hr, -⟩ := List.sublist_cons_iff.mp h
        · exact hstop op rest hrest h
        · -- a list that begins with `first` is no front part of one that begins with `e`
          have hprefix : matched ++ [op] <+: e :: expected :=
            ⟨rest, by rw [← happend, hrest, ← List.append_cons]⟩
          rw [hr] at hprefix
          exact hne (List.cons_prefix_cons.mp hprefix).1

theorem unmatched_eq_nil_iff {listing expected : List Opcode} :
    unmatched listing expected = [] ↔ expected.Sublist listing := by
  obtain ⟨matched, happend, hsub, hstop⟩ := exists_matched listing expected
  cases hrest : unmatched listing expected with
  | nil =>
    rw [hrest, List.append_nil] at happend
    exact iff_of_true rfl (happend ▸ hsub)
  | cons op rest =>
    refine iff_of_false (List.cons_ne_nil _ _) fun h ↦ hstop op rest hrest ?_
    rw [hrest, List.append_cons] at happend
    exact ((List.prefix_append _ rest).sublist.trans (happend ▸ .refl _)).trans h

/-! ## Offsets -/

variable {c : Chunk}

/-- The marks are those at the offsets. -/
theorem mem_marks {k : Nat} {op : Opcode} : (k, op) ∈ c.marks ↔ c.opcodeAt? k = some op := by
  simp only [marks, List.mem_filterMap, Prod.exists, List.mk_mem_zipIdx_iff_getElem?,
    Option.map_eq_some_iff, Prod.mk.injEq, opcodeAt?, Option.bind_eq_some_iff,
    Array.getElem?_toList]
  constructor
  · rintro ⟨cell, _, hcell, _, hmark, rfl, rfl⟩
    exact ⟨cell, hcell, hmark⟩
  · rintro ⟨cell, hcell, hmark⟩
    exact ⟨cell, k, hcell, op, hmark, rfl, rfl⟩

theorem map_snd_marks (c : Chunk) : c.marks.map Prod.snd = c.opcodes := by
  rw [marks, opcodes, List.map_filterMap]
  conv_rhs => rw [← List.zipIdx_map_fst 0 c.cells.toList, List.filterMap_map]
  congr 1
  funext ⟨cell, offset⟩
  exact (Option.map_map ..).trans Option.map_id'

theorem pairwise_marks (c : Chunk) : c.marks.Pairwise fun p p' ↦ p.1 < p'.1 :=
  c.marks_eq ▸ pairwise_marksFrom 0 c.listing

/-- Opcodes are a subsequence of the listing if they stand at offsets one behind the other. -/
theorem sublist_opcodes_iff {expected : List Opcode} :
    expected.Sublist c.opcodes ↔ ∃ offsets : List Nat, offsets.Pairwise (· < ·)
      ∧ List.Forall₂ (fun offset op ↦ c.opcodeAt? offset = some op) offsets expected := by
  rw [← map_snd_marks, List.sublist_map_iff]
  constructor
  · rintro ⟨found, hfound, rfl⟩
    refine ⟨found.map Prod.fst, List.pairwise_map.mpr (c.pairwise_marks.sublist hfound), ?_⟩
    rw [List.forall₂_map_left_iff, List.forall₂_map_right_iff, List.forall₂_same]
    exact fun _ hp ↦ mem_marks.mp (hfound.subset hp)
  · rintro ⟨offsets, hsorted, hoffsets⟩
    obtain ⟨hlength, hmem⟩ := List.forall₂_iff_zip.mp hoffsets
    refine ⟨offsets.zip expected, ?_, (List.map_snd_zip hlength.ge).symm⟩
    have hzip : (offsets.zip expected).Pairwise fun p p' ↦ p.1 < p'.1 := by
      rwa [← List.pairwise_map, List.map_fst_zip hlength.le]
    have hnodup : (offsets.zip expected).Nodup := hzip.imp fun h heq ↦ by simp [heq] at h
    -- both lists are in the order of the offsets, so it is enough that one has the other's pairs
    have : Std.Antisymm fun p p' : Nat × Opcode ↦ p.1 < p'.1 := ⟨fun _ _ h h' ↦ absurd h h'.asymm⟩
    refine List.sublist_of_subperm_of_pairwise ?_ hzip c.pairwise_marks
    exact List.subperm_of_subset hnodup fun _ hp ↦ mem_marks.mpr (hmem hp)

/-- **The check finds subsequences.** A chunk passes the check for opcodes in order if and only if
they are a subsequence of its opcodes, which is to say that they stand at growing offsets. -/
theorem hasInOrder_iff (c : Chunk) (expected : List Opcode) :
    (c.hasInOrder expected ↔ expected.Sublist c.opcodes)
      ∧ (c.hasInOrder expected ↔ ∃ offsets : List Nat, offsets.Pairwise (· < ·)
        ∧ List.Forall₂ (fun offset op ↦ c.opcodeAt? offset = some op) offsets expected) := by
  have hsublist : c.hasInOrder expected ↔ expected.Sublist c.opcodes := by
    rw [hasInOrder, List.isEmpty_iff, unmatched_eq_nil_iff]
  exact ⟨hsublist, hsublist.trans sublist_opcodes_iff⟩

end Pictograph.Chunk
