import Pictograph.Code.StringPool
import Pictograph.Proofs.Code.Literals

/-!
# Interning

A string pool keeps its strings in two ways: in order, which is how positions are turned into
strings, and in an index, which is how strings are turned into positions. Whatever is done with a
pool, the two are inverse to each other, and both are determined by the contents that were interned
since the pool was emptied last.

The index is not gone through by any operation, so nothing can be read off it but the answers to
lookups. The invariant says what these are for every content, those that were never interned
included: an entry that is left behind when a pool is emptied would be found again later.

A position is an operand of one word. A pool with more strings than there are words hands out some
positions twice, which is why positions are compared only while there are fewer.

## Main definitions

* `StringPool.Operation`: what can be done with a pool.
* `StringPool.after`: the pool after some operations.
* `StringPool.met`: the contents that were interned since the pool was emptied last.
* `StringPool.Exact`: the strings and the index are those of the contents met.

## Main results

* `StringPool.exact_after`: the invariant of every run.
* `StringPool.lasting`: what a position that was handed out is worth afterwards.
* `StringPool.correct`: strings and positions, after any operations.
-/

namespace Pictograph

/-! ## Distinct contents -/

section

variable {α : Type} [BEq α] [LawfulBEq α] {a : α} {l : List α}

/-- Where a content stands among the distinct ones is told by those in front of it. -/
theorem List.idxOf_eraseDups (h : a ∈ l) :
    l.eraseDups.idxOf a = (l.takeWhile (· != a)).eraseDups.length := by
  obtain ⟨front, back, rfl, hnew⟩ := List.eq_append_cons_of_mem h
  have hfront : (front ++ a :: back).takeWhile (· != a) = front := by
    have hne : ∀ x ∈ front, (x != a) = true :=
      fun x hx ↦ bne_iff_ne.mpr (ne_of_mem_of_not_mem hx hnew)
    rw [List.takeWhile_append_of_pos hne, List.takeWhile_cons_of_neg (by simp), List.append_nil]
  rw [hfront, List.append_cons, idxOf_eraseDups_append (by simp),
    idxOf_eraseDups_concat_of_notMem hnew]

end

/-! ## Operations -/

/-- What can be done with a pool. -/
inductive StringPool.Operation where
  /-- Asks for the position of a string. -/
  | intern (s : String)
  /-- Asks for the string at a position. -/
  | get (position : UInt32)
  /-- Empties the pool. -/
  | clear
  /-- Empties the pool, and asks for the strings it had. -/
  | take

/-- Whether an operation empties the pool. -/
def StringPool.Operation.empties : Operation → Bool
  | clear | take => true
  | intern _ | get _ => false

/-- The table after an operation on it. -/
def StringTable.perform (t : StringTable) : StringPool.Operation → StringTable
  | .intern s => (t.intern s).2
  | .get _ => t
  | .clear => .empty
  | .take => t.take.2

/-- The table after some operations. -/
def StringTable.after (operations : List StringPool.Operation) : StringTable :=
  operations.foldl perform empty

namespace StringPool

/-- The pool after an operation. -/
def perform (p : StringPool) : Operation → StringPool
  | .intern s => (p.intern s).2
  | .get _ => p
  | .clear => p.clear
  | .take => p.take.2

/-- What is remembered after an operation, if these contents were remembered before. -/
def remember (met : List String) : Operation → List String
  | .intern s => met ++ [s]
  | .get _ => met
  | .clear | .take => []

/-- The pool after some operations. -/
def after (operations : List Operation) : StringPool := operations.foldl perform empty

/-- The contents that were interned since the pool was emptied last, in order. -/
def met (operations : List Operation) : List String := operations.foldl remember []

/-! ## The invariant -/

variable {p : StringPool} {t : StringTable} {contents : List String} {s s' : String}
  {operations later : List Operation} {operation : Operation}

/-- The strings and the index are those of the contents met, and the table has the same strings. -/
structure Exact (p : StringPool) (t : StringTable) (contents : List String) : Prop where
  /-- The strings are the distinct contents in the order in which they were met first. -/
  strings : p.strings.toList = contents.eraseDups
  /-- The index has the position of each of them, and of nothing else. -/
  index : ∀ s, p.index[s]?
    = if s ∈ contents then some (UInt32.ofNat (contents.eraseDups.idxOf s)) else none
  /-- The table has the same strings. -/
  table : t.strings = p.strings

theorem exact_empty : Exact empty .empty [] :=
  ⟨rfl, fun _ ↦ Std.HashMap.getElem?_empty, rfl⟩

namespace Exact

variable (h : p.Exact t contents)

include h

/-- A content that was met is found in the index. -/
theorem intern_of_mem (hs : s ∈ contents) :
    p.intern s = (UInt32.ofNat (contents.eraseDups.idxOf s), p) := by
  have hfound := h.index s
  rw [if_pos hs] at hfound
  rw [intern, hfound]

/-- One that is new is appended and indexed. -/
theorem intern_of_notMem (hs : s ∉ contents) :
    p.intern s = (UInt32.ofNat p.strings.size,
      ⟨p.strings.push s, p.index.insert s (UInt32.ofNat p.strings.size)⟩) := by
  have hmissing := h.index s
  rw [if_neg hs] at hmissing
  rw [intern, hmissing]

theorem size : p.strings.size = contents.eraseDups.length := by
  rw [← Array.length_toList, h.strings]

/-- The position is the one that the content gets among the distinct ones. -/
theorem intern_fst (s : String) :
    (p.intern s).1 = UInt32.ofNat ((contents ++ [s]).eraseDups.idxOf s) := by
  by_cases hs : s ∈ contents
  · rw [h.intern_of_mem hs, List.eraseDups_concat_of_mem hs]
  · rw [h.intern_of_notMem hs, List.idxOf_eraseDups_concat_of_notMem hs, h.size]

/-- The pool has the content afterwards, and the others as before. -/
theorem intern (s : String) : (p.intern s).2.Exact (t.intern s).2 (contents ++ [s]) := by
  obtain ⟨htable, -⟩ := StringTable.intern_of_eraseDups (h.table ▸ h.strings) s
  by_cases hs : s ∈ contents
  · rw [h.intern_of_mem hs]
    rw [List.eraseDups_concat_of_mem hs] at htable
    refine ⟨h.strings.trans (List.eraseDups_concat_of_mem hs).symm, fun s' ↦ ?_, ?_⟩
    · have hmem : s' ∈ contents ++ [s] ↔ s' ∈ contents := by
        rw [List.mem_append, List.mem_singleton, or_iff_left_iff_imp]
        rintro rfl
        exact hs
      rw [h.index, List.eraseDups_concat_of_mem hs, if_congr hmem rfl rfl]
    · rw [← Array.toList_inj, htable, h.strings]
  · have hstrings : (p.strings.push s).toList = (contents ++ [s]).eraseDups := by
      rw [Array.toList_push, h.strings, List.eraseDups_concat_of_notMem hs]
    rw [h.intern_of_notMem hs]
    refine ⟨hstrings, fun s' ↦ ?_, Array.toList_inj.mp (htable.trans hstrings.symm)⟩
    rw [Std.HashMap.getElem?_insert, h.index]
    by_cases hs' : s = s'
    · subst hs'
      rw [if_pos (beq_self_eq_true s), if_pos (by simp), h.size,
        List.idxOf_eraseDups_concat_of_notMem hs]
    · have hmem : s' ∈ contents ++ [s] ↔ s' ∈ contents := by
        rw [List.mem_append, List.mem_singleton, or_iff_left (Ne.symm hs')]
      rw [if_neg (by rwa [beq_iff_eq]), if_congr hmem rfl rfl]
      by_cases hold : s' ∈ contents
      · rw [if_pos hold, if_pos hold, List.idxOf_eraseDups_append hold]
      · rw [if_neg hold, if_neg hold]

/-- **One operation keeps the invariant.** -/
theorem perform (operation : Operation) :
    (p.perform operation).Exact (t.perform operation) (remember contents operation) := by
  cases operation with
  | intern s => exact h.intern s
  | get position => exact h
  | clear => exact exact_empty
  | take => exact exact_empty

/-- What is behind some operations holds behind more of them. -/
theorem foldl (operations : List Operation) :
    (operations.foldl StringPool.perform p).Exact (operations.foldl StringTable.perform t)
      (operations.foldl remember contents) := by
  induction operations generalizing p t contents with
  | nil => exact h
  | cons operation operations ih => exact ih (h.perform operation)

end Exact

/-- **The invariant of every run.** -/
theorem exact_after (operations : List Operation) :
    (after operations).Exact (StringTable.after operations) (met operations) :=
  exact_empty.foldl operations

/-! ## Positions -/

namespace Exact

variable (h : p.Exact t contents)

include h

/-- The number of strings is the first position that was not handed out. -/
theorem idxOf_le (s : String) : (contents ++ [s]).eraseDups.idxOf s ≤ p.strings.size := by
  rw [h.size]
  by_cases hs : s ∈ contents
  · rw [List.eraseDups_concat_of_mem hs]
    exact List.idxOf_le_length
  · exact Nat.le_of_eq (List.idxOf_eraseDups_concat_of_notMem hs)

/-- A position that is handed out is one word as long as there are fewer strings than words. -/
theorem toNat_intern (hfew : p.strings.size < UInt32.size) (s : String) :
    (p.intern s).1.toNat = (contents ++ [s]).eraseDups.idxOf s := by
  rw [h.intern_fst, UInt32.toNat_ofNat_of_lt' (Nat.lt_of_le_of_lt (h.idxOf_le s) hfew)]

/-- The table hands out the same positions, has the same strings at them, and returns the same
strings in the end. -/
theorem agrees :
    (∀ s, (p.intern s).1 = UInt32.ofNat (t.intern s).1)
    ∧ (∀ position, p.get? position = t.get? position.toNat) ∧ p.take.1 = t.take.1 := by
  have hstrings := h.table ▸ h.strings
  refine ⟨fun s ↦ ?_, fun position ↦ ?_, ?_⟩
  · rw [h.intern_fst, (StringTable.intern_of_eraseDups hstrings s).2]
  · rw [get?, StringTable.get?, h.table]
  · rw [take, StringTable.take, h.table]

end Exact

/-- Contents that were met are remembered until the pool is emptied. -/
theorem exists_remembered (hlater : ∀ operation ∈ later, operation.empties = false) :
    ∃ rest, later.foldl remember contents = contents ++ rest := by
  induction later generalizing contents with
  | nil => exact ⟨[], (List.append_nil _).symm⟩
  | cons operation later ih =>
    obtain ⟨hfirst, hothers⟩ := List.forall_mem_cons.mp hlater
    cases operation with
    | intern s =>
      obtain ⟨rest, hrest⟩ := @ih (contents ++ [s]) hothers
      exact ⟨s :: rest, List.append_cons .. ▸ hrest⟩
    | get position => exact ih hothers
    | clear => cases hfirst
    | take => cases hfirst

/-- **What a position is worth afterwards.** A position that was handed out for a content is the
number of distinct contents that were met before it. Until the pool is emptied, the content is found
at this position, and interning yields the position for this content and for no other. -/
theorem lasting (hlater : ∀ operation ∈ later, operation.empties = false)
    (hfew : (after (operations ++ .intern s :: later)).strings.size < UInt32.size) :
    ((after operations).intern s).1.toNat
        = ((met operations ++ [s]).takeWhile (· != s)).eraseDups.length
      ∧ (after (operations ++ .intern s :: later)).get? ((after operations).intern s).1 = some s
      ∧ ∀ s', ((after (operations ++ .intern s :: later)).intern s').1
          = ((after operations).intern s).1 ↔ s' = s := by
  have hbefore := exact_after operations
  have hafter := exact_after (operations ++ .intern s :: later)
  obtain ⟨rest, hrest⟩ := @exists_remembered (met operations ++ [s]) later hlater
  have hmet : met (operations ++ .intern s :: later) = met operations ++ [s] ++ rest := by
    rw [met, List.foldl_append, List.foldl_cons]
    exact hrest
  rw [hmet] at hafter
  generalize after (operations ++ .intern s :: later) = p at hfew hafter ⊢
  generalize met operations = before at hbefore hafter ⊢
  have hmem : s ∈ before ++ [s] := by simp
  have hposition : (before ++ [s]).eraseDups.idxOf s = (before ++ [s] ++ rest).eraseDups.idxOf s :=
    (List.idxOf_eraseDups_append hmem rest).symm
  have hsize : (after operations).strings.size < UInt32.size := by
    refine Nat.lt_of_le_of_lt ?_ hfew
    rw [hbefore.size, hafter.size, List.append_assoc, List.eraseDups_append, List.length_append]
    exact Nat.le_add_right _ _
  have htoNat := hbefore.toNat_intern hsize s
  refine ⟨?_, ?_, fun s' ↦ ?_⟩
  · rw [htoNat, List.idxOf_eraseDups hmem]
  · rw [get?, htoNat, hposition, ← Array.getElem?_toList, hafter.strings]
    exact List.getElem?_idxOf (List.mem_eraseDups.mpr (List.mem_append_left rest hmem))
  · have hmem' : s ∈ before ++ [s] ++ rest := List.mem_append_left rest hmem
    rw [← UInt32.toNat_inj, htoNat, hafter.toNat_intern hfew, hposition,
      ← List.idxOf_eraseDups_append hmem' [s']]
    exact List.idxOf_inj (List.mem_eraseDups.mpr (List.mem_append_right _ (by simp)))

/-- **Strings and positions.** After any operations on a pool,

* its strings are the distinct contents that were interned since it was emptied last, in the order
  in which they were met first, and no two of them are the same;
* while there are fewer strings than words, interning a content yields the number of distinct
  contents that were interned before it was met first; until the pool is emptied, the content stands
  at this position, and interning yields the position for this content and for no other;
* once the pool is emptied it goes on like a new one, and what was taken from it are its strings;
* it answers what the table answers after the same operations. -/
theorem correct (operations : List Operation) :
    ((after operations).strings.toList = (met operations).eraseDups
      ∧ (after operations).strings.toList.Nodup)
    ∧ (∀ s later, (∀ operation ∈ later, operation.empties = false) →
      (after (operations ++ .intern s :: later)).strings.size < UInt32.size →
      ((after operations).intern s).1.toNat
          = ((met operations ++ [s]).takeWhile (· != s)).eraseDups.length
        ∧ (after (operations ++ .intern s :: later)).get? ((after operations).intern s).1 = some s
        ∧ ∀ s', ((after (operations ++ .intern s :: later)).intern s').1
          = ((after operations).intern s).1 ↔ s' = s)
    ∧ ((∀ operation later, operation.empties = true →
        after (operations ++ operation :: later) = after later
        ∧ met (operations ++ operation :: later) = met later)
      ∧ (after operations).take.1 = (met operations).eraseDups)
    ∧ (∀ s, ((after operations).intern s).1
        = UInt32.ofNat ((StringTable.after operations).intern s).1)
      ∧ (∀ position,
        (after operations).get? position = (StringTable.after operations).get? position.toNat)
      ∧ (after operations).take.1 = (StringTable.after operations).take.1 := by
  have h := exact_after operations
  refine ⟨⟨h.strings, ?_⟩, fun s later hlater hfew ↦ lasting hlater hfew, ⟨?_, h.strings⟩, h.agrees⟩
  · rw [h.strings]
    exact List.nodup_eraseDups _
  · intro operation later hempties
    rw [after, List.foldl_append, List.foldl_cons, met, List.foldl_append, List.foldl_cons]
    cases operation with
    | intern s => cases hempties
    | get position => cases hempties
    | clear => exact ⟨rfl, rfl⟩
    | take => exact ⟨rfl, rfl⟩

/-- A pool that was emptied counts from zero, and a content keeps its position when others come. -/
theorem correct_after_take :
    ((after [.intern "salt", .intern "sugar", .take]).intern "sugar").1.toNat = 0
      ∧ (after [.intern "salt", .intern "sugar", .take, .intern "sugar", .intern "salt"]).get?
        ((after [.intern "salt", .intern "sugar", .take]).intern "sugar").1 = some "sugar" := by
  have hfew : (after ([.intern "salt", .intern "sugar", .take] ++ .intern "sugar"
      :: [.intern "salt"])).strings.size < UInt32.size := by
    rw [(exact_after _).size]
    decide
  obtain ⟨hposition, hcontent, -⟩ :=
    (correct [.intern "salt", .intern "sugar", .take]).2.1 "sugar" [.intern "salt"]
      (List.forall_mem_singleton.mpr rfl) hfew
  exact ⟨hposition, hcontent⟩

end StringPool

end Pictograph
