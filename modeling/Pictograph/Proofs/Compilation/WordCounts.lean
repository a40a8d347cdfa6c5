import Pictograph.Proofs.Code.Regions
import Pictograph.Proofs.Compilation.Emitted

/-!
# The word counts of a body

In the code of an accepted body a word count says how many words stand in its region, so the
interpreter that skips a region gets to the word behind it. Regions do not overlap by halves: of any
two, one is inside the other or they have no word in common.

A word count is a word. A region of 2³² words or more would have a word count that is too small.

## Main results

* `word_counts_exact`: the regions of the code of a body and their word counts.
-/

namespace Pictograph

/-- Some code has regions with word counts. -/
structure Chunk.HasRegions (code : Chunk) (rs : List Region) : Prop where
  /-- They are the regions that the opcodes of the code ask for. -/
  places : (rs.map Region.place).Perm (extentsAt code.marks)
  /-- A word count is the number of words in its region. -/
  exact : ∀ r ∈ rs, code.wordAt? r.word = some (UInt32.ofNat r.size)
  /-- No region goes beyond the end of the code. -/
  last_le : ∀ r ∈ rs, r.last ≤ code.size
  /-- Any two regions are nested or apart. -/
  nests : ∀ r ∈ rs, ∀ r' ∈ rs, r.Nests r'

/-- The number that a word count stands for, in code that is short enough. -/
theorem Chunk.HasRegions.toNat {code : Chunk} {rs : List Region} (h : code.HasRegions rs)
    (hc : code.size ≤ UInt32.size) :
    ∀ r ∈ rs, ∃ w, code.wordAt? r.word = some w ∧ w.toNat = r.size := by
  refine fun r hr ↦ ⟨_, h.exact r hr, UInt32.toNat_ofNat_of_lt' ?_⟩
  have hlast := h.last_le r hr
  unfold Region.last Region.first at hlast
  change r.size < UInt32.size
  omega

/-- Code has the regions of its outline. -/
theorem Chunk.hasRegions_of_isOutline {answered : Query → State → Prop} {gap : Nat → Prop}
    {callee : Nat → Nat → Prop} {o : Outline} {code : Chunk} (h : IsOutline answered o code)
    (hl : Outline.Laid gap callee o 0) : code.HasRegions (Outline.regions o 0) := by
  have hstands : StandsAt code.listing 0 (Outline.entries o) := by
    rw [h.listing]
    exact List.prefix_rfl
  have hcounts := Outline.counts_regions o 0 hstands hl
  have hsize : Outline.size o = code.size := by
    rw [← Outline.length_entries, h.listing, code.length_listing]
  refine ⟨?_, fun r hr ↦ ?_, fun r hr ↦ ?_, hcounts.nests⟩
  · rw [marks_of_isOutline h]
    exact Outline.perm_regions o 0 hl
  · rw [code.wordAt?_eq, hcounts.exact r hr]
    rfl
  · have hlast := (hcounts.between r hr).2
    rwa [hsize, Nat.zero_add] at hlast

/-- **Word counts are exact**, and regions are nested or apart. The code of an accepted body has
just the regions that its opcodes ask for, each of them behind a word count that is the number of
its words, and none of them goes beyond the end of the code. -/
theorem word_counts_exact {cat : Catalogue} {options : Options} {session session' : Session}
    {c : Class} {m : Member} {tokens : List Token} {record : Record}
    (h : compile cat options session c m tokens = (.ok record, session')) :
    ∃ o, IsOnlyOutline (AnsweredIn cat options session c m tokens) o record.code
      ∧ Outline.Laid (GapAt (AnsweredIn cat options session c m tokens))
        (CalleeAt (AnsweredIn cat options session c m tokens)) o 0
      ∧ record.code.HasRegions (Outline.regions o 0)
      ∧ (record.code.size ≤ UInt32.size → ∀ r ∈ Outline.regions o 0,
        ∃ w, record.code.wordAt? r.word = some w ∧ w.toNat = r.size) := by
  obtain ⟨o, ho, hl⟩ := exists_laid h
  have hr := Chunk.hasRegions_of_isOutline ho hl
  exact ⟨o, ho.isOnly h, hl, hr, hr.toNat⟩

/-- A body with a branch that does nothing, `🍊 👍 🍇 🍉 🍉`. -/
def Sample.emptyBranch : List Token :=
  [ask .ifBranch, word (.boolean true), ask .blockOpen, ask .blockClose, ask .blockClose]

/-- The code of `Sample.emptyBranch`. -/
def Sample.emptyBranchOutline : Outline := [.ifChain [.plain (.boolean true) [] []] [] []]

/-- A body with a branch is accepted, and its word counts are exact. -/
theorem word_counts_exact_sample :
    ∃ record session', compile Sample.catalogue {} .start Sample.parentClass Sample.method
        Sample.emptyBranch = (.ok record, session')
      ∧ ∃ o, IsOnlyOutline (AnsweredIn Sample.catalogue {} .start Sample.parentClass Sample.method
          Sample.emptyBranch) o record.code
        ∧ record.code.HasRegions (Outline.regions o 0) := by
  have hcode : listing? Sample.catalogue {} .start Sample.parentClass Sample.method
      Sample.emptyBranch = some (Outline.entries Sample.emptyBranchOutline) := by
    decide +kernel
  obtain ⟨record, session', h, -⟩ := exists_record hcode
  obtain ⟨o, ho, -, hr, -⟩ := word_counts_exact h
  exact ⟨record, session', h, o, ho, hr⟩

example : Outline.regions Sample.emptyBranchOutline 0 = [⟨0, .chain, 1, 2⟩, ⟨0, .body, 3, 0⟩] :=
  rfl

end Pictograph
