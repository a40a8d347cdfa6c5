import Pictograph.Proofs.Analysis.DeadCode
import Pictograph.Proofs.Compilation.Returns

/-!
# Compiling without dead code

A body that is accepted with its dead code should be accepted without it, with the same code up to
where the dead code begins. But what is left out is read without the declared types. A mark of a
block stands for a block there, while the analysis takes it for a name if it stands where a name is
expected: nothing keeps a procedure or a type from being called `🍉`.

## Main results

* `compile_withoutDeadCode`: where no mark of a block is a name, bodies are accepted without their
  dead code, and their code, its lines, its opcodes and the strings are prefixes.
* `deadCode_calls_blockClose`: a body that is accepted with its dead code alone.
-/

namespace Pictograph

/-- Code with fewer words at its end has the lines and opcodes of these words. -/
theorem Chunk.prefix_of_cells {code code' : Chunk} (h : code.cells.toList <+: code'.cells.toList) :
    code.words <+: code'.words ∧ code.lines <+: code'.lines ∧ code.marks <+: code'.marks := by
  refine ⟨h.map _, h.map _, ?_⟩
  obtain ⟨rest, hrest⟩ := h
  rw [marks, marks, ← hrest, List.zipIdx_append, List.filterMap_append]
  exact List.prefix_append _ _

variable {cat : Catalogue} {options : Options} {session session' : Session} {c : Class}
  {m : Member} {tokens : List Token} {record : Record}

/-- **Dead code may be left out.** If no mark of a block is a name in the catalogue, a body that is
accepted with its dead code is also accepted without it. The words, the lines and the opcodes of its
code are then prefixes of those with dead code, and so are the strings that it adds. -/
theorem compile_withoutDeadCode (hopen : ¬ cat.Finds Construct.blockOpen.spelling)
    (hclose : ¬ cat.Finds Construct.blockClose.spelling)
    (h : compile cat (options.withDeadCode true) session c m tokens = (.ok record, session')) :
    ∃ record' session'' added added',
      compile cat (options.withDeadCode false) session c m tokens = (.ok record', session'')
      ∧ record'.code.words <+: record.code.words
      ∧ record'.code.lines <+: record.code.lines
      ∧ record'.code.marks <+: record.code.marks
      ∧ session'.strings.strings.toList = session.strings.strings.toList ++ added
      ∧ session''.strings.strings.toList = session.strings.strings.toList ++ added'
      ∧ added' <+: added := by
  by_cases hm : m.isNative
  · rw [compile, if_pos hm] at h
    cases h
    refine ⟨_, _, [], [], by rw [compile, if_pos hm], ?_⟩
    simp
  have hm : m.isNative = false := eq_false_of_ne_true hm
  obtain ⟨fields, summary, s, hfields, hbody, hfinish, rfl⟩ := (compile_ok_iff hm).mp h
  obtain ⟨hafter, -, rfl⟩ := finishRecord_ok_iff.mp hfinish
  obtain ⟨summary', s', hbody', hcurtails⟩ := Analysis.body_curtailed
    (Γ := .ofMember cat options c m) hopen hclose rfl rfl hbody
  obtain ⟨hwords, hlines, hmarks⟩ := Chunk.prefix_of_cells hcurtails.cells
  obtain ⟨added', hadded'⟩ := hcurtails.earlier
  obtain ⟨rest, hrest⟩ := hcurtails.strings
  refine ⟨⟨m.header summary'.slotCount, s'.assembler.chunk⟩, s'.session, added' ++ rest, added', ?_,
    hwords, hlines, hmarks, ?_, hadded'.symm, List.prefix_append _ _⟩
  · refine (compile_ok_iff hm).mpr ⟨fields, summary', s', hfields, hbody', ?_, rfl⟩
    exact finishRecord_ok_iff.mpr ⟨hcurtails.after.trans hafter, hcurtails.holes, rfl⟩
  · rw [← List.append_assoc]
    exact hrest.symm.trans (congrArg (· ++ rest) hadded'.symm)

/-! ## Samples -/

namespace Sample

/-- A body with more statements behind its return, among them a block with a string literal,
`🍎 1 🍊 👍 🍇 🔤b🔤 🍉 🍎 2 🍉`. -/
def blockBehindReturn : List Token :=
  [ask .returning, word (.integer 1), ask .ifBranch, word (.boolean true), ask .blockOpen,
    word (.string "b"), ask .blockClose, ask .returning, word (.integer 2), ask .blockClose]

/-- A class 🐴 with a method 🐾 that returns an integer and a class method 🍉. -/
def grocer : ClassDeclaration :=
  { teller with classMethods := [{ symbol := Construct.blockClose.spelling }] }

/-- The catalogue of this class. -/
def grocerCatalogue : Catalogue := Catalogue.empty.addIfPossible (.ofClass grocer)

/-- The registered class 🐴. -/
def grocerClass : Class := (grocerCatalogue.class? grocer.typeId).get (by decide +kernel)

/-- The method 🐾 of 🐴. -/
def sell : Member := grocerClass.methods.head (by decide +kernel)

/-- A body that calls the class method 🍉 behind its return, `🍎 1 🍩 🍉 🐴 🍉`. -/
def callBehindReturn : List Token :=
  [ask .returning, word (.integer 1), ask .classMethod, ask .blockClose,
    word (.identifier grocer.name), ask .blockClose]

end Sample

/-- A body with a block behind its return is accepted with and without this block. -/
theorem compile_withoutDeadCode_sample :
    ¬ Sample.tellerCatalogue.Finds Construct.blockOpen.spelling
    ∧ ¬ Sample.tellerCatalogue.Finds Construct.blockClose.spelling
    ∧ ∃ record session', compile Sample.tellerCatalogue (Options.withDeadCode {} true) .start
        Sample.tellerClass Sample.tell Sample.blockBehindReturn = (.ok record, session')
      ∧ ∃ record' session'' added added',
        compile Sample.tellerCatalogue (Options.withDeadCode {} false) .start Sample.tellerClass
          Sample.tell Sample.blockBehindReturn = (.ok record', session'')
        ∧ record'.code.words <+: record.code.words
        ∧ record'.code.lines <+: record.code.lines
        ∧ record'.code.marks <+: record.code.marks
        ∧ session'.strings.strings.toList = Session.start.strings.strings.toList ++ added
        ∧ session''.strings.strings.toList = Session.start.strings.strings.toList ++ added'
        ∧ added' <+: added := by
  have hcat : Sample.tellerCatalogue.Consistent :=
    (Catalogue.Reachable.empty.addIfPossible _).consistent
  have hopen : ¬ Sample.tellerCatalogue.Finds Construct.blockOpen.spelling :=
    mt (·.mem_declaredNames hcat) (by decide +kernel)
  have hclose : ¬ Sample.tellerCatalogue.Finds Construct.blockClose.spelling :=
    mt (·.mem_declaredNames hcat) (by decide +kernel)
  have hcode : listing? Sample.tellerCatalogue (Options.withDeadCode {} true) .start
      Sample.tellerClass Sample.tell Sample.blockBehindReturn = some (Outline.entries
        [.plain .returning [] [.plain .integer [1] []],
          .ifChain [.plain (.boolean true) [] []] [.plain .string [0] []] [],
          .plain .returning [] [.plain .integer [2] []]]) := by
    decide +kernel
  obtain ⟨record, session', h, -⟩ := exists_record hcode
  exact ⟨hopen, hclose, record, session', h, compile_withoutDeadCode hopen hclose h⟩

/-- The body `🍎 1 🍩 🍉 🐴 🍉` is accepted with its dead code. Without it the name of the class
method is taken for the end of the body, and the body is rejected at the name of the class. -/
theorem deadCode_calls_blockClose :
    (compile Sample.grocerCatalogue (Options.withDeadCode {} true) .start Sample.grocerClass
        Sample.sell Sample.callBehindReturn).1.toOption.map (·.code.words)
      = some [96, 19, 1, 2, 0, 0]
    ∧ (compile Sample.grocerCatalogue (Options.withDeadCode {} false) .start Sample.grocerClass
        Sample.sell Sample.callBehindReturn).1
      = .error ((Cause.unexpectedToken "end of body"
        (Lexeme.identifier Sample.grocer.name).describe).at .nowhere) := by
  decide +kernel

end Pictograph
