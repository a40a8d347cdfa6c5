import Pictograph.Compilation.Unit
import Pictograph.Proofs.Analysis.ProgressConstructs
import Pictograph.Proofs.Compilation.Emitted

/-!
# The string table of a program

All bodies of a unit share one string table. If dead code is compiled, every token of a body is
analysed, so the table holds the string literals of all bodies, each of them once, and the code of a
body refers to the literals of its own tokens.

A position in the table is an operand of one word. So in a table with more strings than there are
words, which no program of this world has, positions are written modulo the number of words.

## Main definitions

* `CompilationUnit.literalsOf`: the string literals in the body of a compiled procedure.

## Main results

* `compile_strings`: what one body adds to the table, and how its code refers to it.
* `build_strings`: the string table of a program is exact.
-/

namespace Pictograph

/-! ## One body -/

/-- The string literals of a body, in the order of its tokens. -/
def literalsIn (tokens : List Token) : List String := tokens.filterMap Token.string?

/-- How code refers to string literals by their positions among distinct strings. -/
def references (strings literals : List String) : List (Option UInt32) :=
  literals.map fun content ↦ some (UInt32.ofNat (strings.idxOf content))

/-- **What a body does to the string table.** If the table holds the strings met so far, it holds
afterwards those of the body, too, and the code refers to them in the order of the tokens. -/
theorem compile_strings {cat : Catalogue} {options : Options} {session session' : Session}
    {c : Class} {m : Member} {tokens : List Token} {record : Record} {met : List String}
    (hdead : options.compilesDeadCode) (hm : m.isNative = false)
    (h : compile cat options session c m tokens = (.ok record, session'))
    (hmet : session.strings.strings.toList = met.eraseDups) :
    session'.strings.strings.toList = (met ++ literalsIn tokens).eraseDups
      ∧ record.code.stringOperands
        = references (met ++ literalsIn tokens).eraseDups (literalsIn tokens) := by
  obtain ⟨fields, summary, s, -, hbody, hfinish, rfl⟩ := (compile_ok_iff hm).mp h
  obtain ⟨hafter, -, rfl⟩ := finishRecord_ok_iff.mp hfinish
  obtain ⟨closing, hc, hlead⟩ :=
    Analysis.closes_body (Analysis.proceeds_expression _) hdead summary s hbody
  obtain ⟨ts, htokens, hcollects⟩ := hlead.literals
  -- the mark at the end is the last token, and no string literal
  have hliterals : ts.filterMap Token.string? = literalsIn tokens := by
    have htokens : tokens = ts ++ [closing] := by
      rw [← hafter]
      exact htokens
    have hnone := Token.string?_of_identifier? (Token.identifier?_of_asksFor hc)
    rw [literalsIn, htokens, List.filterMap_append, List.filterMap_cons_none hnone,
      List.filterMap_nil, List.append_nil]
  rw [hliterals] at hcollects
  refine ⟨hcollects.strings met hmet, ?_⟩
  rw [Chunk.stringOperands_eq]
  exact (hcollects.operands met hmet Assembler.clear_start).2

/-- Positions stay what they are when more strings are met. -/
theorem references_append {met literals : List String} (h : literals ⊆ met) (later : List String) :
    references (met ++ later).eraseDups literals = references met.eraseDups literals :=
  List.map_congr_left fun content hmem ↦ by
    rw [List.idxOf_eraseDups_append (h hmem)]

/-- Positions that fit a word lead back to the strings. -/
theorem references_read {strings literals : List String} (h : literals ⊆ strings)
    (hsize : strings.length ≤ UInt32.size) :
    (references strings literals).map (·.bind fun w ↦ strings[w.toNat]?) = literals.map some := by
  rw [references, List.map_map]
  refine List.map_congr_left fun content hmem ↦ ?_
  have hlt : strings.idxOf content < strings.length := List.idxOf_lt_length_of_mem (h hmem)
  have hword : (UInt32.ofNat (strings.idxOf content)).toNat = strings.idxOf content :=
    UInt32.toNat_ofNat_of_lt' (Nat.lt_of_lt_of_le hlt hsize)
  change strings[(UInt32.ofNat (strings.idxOf content)).toNat]? = some content
  rw [hword, List.getElem?_eq_getElem hlt, List.getElem_idxOf hlt]

/-! ## All bodies -/

namespace CompilationUnit

variable {u : CompilationUnit}

/-- The string literals in the body of a compiled procedure. A native procedure has none. -/
def literalsOf (u : CompilationUnit) (q : CompiledMember) : List String :=
  if q.record.header.isNative then
    []
  else
    (u.body? q.owner q.record.header.kind q.record.header.symbol).elim [] (literalsIn ·.tokens)

theorem header_of_compile {cat : Catalogue} {options : Options} {session session' : Session}
    {c : Class} {m : Member} {tokens : List Token} {record : Record}
    (h : compile cat options session c m tokens = (.ok record, session')) :
    ∃ slotCount, record.header = m.header slotCount := by
  by_cases hm : m.isNative
  · rw [compile, if_pos hm] at h
    cases h
    exact ⟨0, rfl⟩
  · obtain ⟨_, summary, s, -, -, hfinish, -⟩ := (compile_ok_iff (eq_false_of_ne_true hm)).mp h
    obtain ⟨-, -, rfl⟩ := finishRecord_ok_iff.mp hfinish
    exact ⟨summary.slotCount, rfl⟩

/-- A procedure that is compiled is native and leaves the session as it is, or its body is
accepted. -/
theorem compileMember_ok {session session' : Session} {c : Class} {m : Member}
    {q : CompiledMember} (h : u.compileMember session c m = .ok (q, session')) :
    u.literalsOf q = [] ∧ q.record.code = .empty ∧ session' = session
      ∨ m.isNative = false ∧ ∃ tokens, u.literalsOf q = literalsIn tokens
        ∧ compile u.catalogue u.options session c m tokens = (.ok q.record, session') := by
  unfold compileMember at h
  dsimp only at h
  split at h
  · cases h
  next tokens htokens =>
  split at h
  · next record session'' hcompile =>
    cases h
    obtain ⟨slotCount, hheader⟩ := header_of_compile hcompile
    by_cases hm : m.isNative
    · rw [compile, if_pos hm] at hcompile
      cases hcompile
      exact .inl ⟨if_pos hm, rfl, rfl⟩
    · refine .inr ⟨eq_false_of_ne_true hm, tokens, ?_, hcompile⟩
      rw [literalsOf, hheader]
      refine (if_neg hm).trans ?_
      change (u.body? c.id m.kind m.symbol).elim [] (literalsIn ·.tokens) = _
      cases hbody : u.body? c.id m.kind m.symbol with
      | some b =>
        rw [hbody] at htokens
        cases htokens
        rfl
      | none =>
        rw [hbody] at htokens
        dsimp only at htokens
        rw [if_neg hm] at htokens
        cases htokens
  · cases h

/-- What one procedure does to the string table. -/
theorem compileMember_strings {session session' : Session} {c : Class} {m : Member}
    {q : CompiledMember} {met : List String} (hdead : u.options.compilesDeadCode)
    (h : u.compileMember session c m = .ok (q, session'))
    (hmet : session.strings.strings.toList = met.eraseDups) :
    session'.strings.strings.toList = (met ++ u.literalsOf q).eraseDups
      ∧ q.record.code.stringOperands
        = references (met ++ u.literalsOf q).eraseDups (u.literalsOf q) := by
  rcases compileMember_ok h with ⟨hliterals, hcode, rfl⟩ | ⟨hm, tokens, hliterals, hcompile⟩
  · rw [hliterals, hcode, List.append_nil]
    exact ⟨hmet, rfl⟩
  · rw [hliterals]
    exact compile_strings hdead hm hcompile hmet

/-- What one procedure after the other does to the string table. -/
theorem compileMembers_strings {ms : List (Class × Member)} {session session' : Session}
    {qs : List CompiledMember} {met : List String} (hdead : u.options.compilesDeadCode)
    (h : u.compileMembers session ms = .ok (qs, session'))
    (hmet : session.strings.strings.toList = met.eraseDups) :
    session'.strings.strings.toList = (met ++ qs.flatMap u.literalsOf).eraseDups
      ∧ ∀ q ∈ qs, q.record.code.stringOperands
        = references (met ++ qs.flatMap u.literalsOf).eraseDups (u.literalsOf q) := by
  induction ms generalizing session met qs with
  | nil =>
    cases h
    rw [List.flatMap_nil, List.append_nil]
    exact ⟨hmet, fun _ hq ↦ nomatch hq⟩
  | cons cm ms ih =>
    obtain ⟨⟨q, session₁⟩, hfirst, h⟩ := Catalogue.bind_ok.mp h
    obtain ⟨⟨qs', session₂⟩, hrest, h⟩ := Catalogue.bind_ok.mp h
    cases h
    obtain ⟨hmet₁, hoperands⟩ := compileMember_strings hdead hfirst hmet
    obtain ⟨hstrings, hothers⟩ := ih hrest hmet₁
    rw [List.flatMap_cons, ← List.append_assoc]
    refine ⟨hstrings, List.forall_mem_cons.mpr ⟨?_, hothers⟩⟩
    rw [hoperands, references_append (List.subset_append_right met _)]

theorem compileProgram_ok {p : Program} (h : u.compileProgram = .ok p) :
    ∃ session, u.compileMembers .start u.members = .ok (p.procedures, session)
      ∧ p.strings = session.strings.strings.toList := by
  obtain ⟨⟨qs, session⟩, hmembers, h⟩ := Catalogue.bind_ok.mp h
  cases h
  exact ⟨session, hmembers, rfl⟩

end CompilationUnit

/-- **The string table of a program is exact.** Let a unit be built with its dead code. The strings
of the program are the contents of the string tokens of all bodies, in the order of the procedures,
without repetitions. The operands of the string instructions of a procedure are the positions of the
string tokens of its body, in the order of the tokens. They lead back to the contents, unless there
are more strings than words. -/
theorem build_strings {u : CompilationUnit} {p : Program} (hdead : u.options.compilesDeadCode)
    (h : u.build.1 = .ok p) :
    p.strings = (p.procedures.flatMap u.literalsOf).eraseDups
      ∧ p.strings.Nodup
      ∧ ∀ q ∈ p.procedures,
        q.record.code.stringOperands = references p.strings (u.literalsOf q)
        ∧ (p.strings.length ≤ UInt32.size →
          q.record.code.stringOperands.map (·.bind fun w ↦ p.strings[w.toNat]?)
            = (u.literalsOf q).map some) := by
  obtain ⟨session, hmembers, hp⟩ := CompilationUnit.compileProgram_ok h
  have hstart : Session.start.strings.strings.toList = ([] : List String).eraseDups := rfl
  obtain ⟨hstrings, hoperands⟩ := CompilationUnit.compileMembers_strings hdead hmembers hstart
  rw [List.nil_append] at hstrings hoperands
  rw [← hp] at hstrings
  rw [← hstrings] at hoperands
  refine ⟨hstrings, hstrings ▸ List.nodup_eraseDups _, fun q hq ↦ ⟨hoperands q hq, fun hsize ↦ ?_⟩⟩
  rw [hoperands q hq]
  refine references_read (fun content hmem ↦ ?_) hsize
  rw [hstrings]
  exact List.mem_eraseDups.mpr (List.mem_flatMap.mpr ⟨q, hq, hmem⟩)

/-! ## A sample -/

namespace Sample

/-- A class 🐌 with the methods 🐾, 🐣 and 🐥, of which the last is native. -/
def speaker : ClassDeclaration where
  space := Vocabulary.defaultNamespace
  name := ⟨0x1F40C⟩
  methods := [{ symbol := ⟨0x1F43E⟩ }, { symbol := ⟨0x1F423⟩ },
    { symbol := ⟨0x1F425⟩, isNative := true }]

/-- Bodies with string literals for both methods that are not native, `🔤a🔤 🍇 🔤b🔤 🍉 🔤a🔤 🍉` and
`🔤b🔤 🔤c🔤 🍉`. -/
def speech : CompilationUnit where
  catalogue := Catalogue.empty.addIfPossible (.ofClass speaker)
  bodies := [
    { owner := speaker.typeId, kind := .method, symbol := ⟨0x1F423⟩,
      tokens := [word (.string "b"), word (.string "c"), ask .blockClose] },
    { owner := speaker.typeId, kind := .method, symbol := ⟨0x1F43E⟩,
      tokens := [word (.string "a"), ask .blockOpen, word (.string "b"), ask .blockClose,
        word (.string "a"), ask .blockClose] }]

end Sample

/-- A unit with two bodies is built, and its strings are `a`, `b` and `c`. -/
theorem build_strings_sample :
    Sample.speech.options.compilesDeadCode
    ∧ ∃ p, Sample.speech.build.1 = .ok p ∧ p.strings = ["a", "b", "c"]
      ∧ (p.strings = (p.procedures.flatMap Sample.speech.literalsOf).eraseDups
        ∧ p.strings.Nodup
        ∧ ∀ q ∈ p.procedures,
          q.record.code.stringOperands = references p.strings (Sample.speech.literalsOf q)
          ∧ (p.strings.length ≤ UInt32.size →
            q.record.code.stringOperands.map (·.bind fun w ↦ p.strings[w.toNat]?)
              = (Sample.speech.literalsOf q).map some)) := by
  have hstrings : Sample.speech.build.1.toOption.map (·.strings) = some ["a", "b", "c"] := by
    decide +kernel
  cases h : Sample.speech.build.1 with
  | error e =>
    rw [h] at hstrings
    cases hstrings
  | ok p =>
    rw [h] at hstrings
    exact ⟨rfl, p, rfl, Option.some.inj hstrings, build_strings rfl h⟩

end Pictograph
