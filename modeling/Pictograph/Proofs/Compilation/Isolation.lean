import Pictograph.Compilation.Compiler
import Pictograph.Proofs.Compilation.CompleteBuilds
import Pictograph.Proofs.Compilation.PairedCompilations

/-!
# Compilations are isolated

A compiler carries three things from one procedure to the next: what its assembler holds, the string
table and the warnings. The first is dropped in front of every body, whatever state an analysis that
failed has left it in. The warnings are carried along, and nobody reads them: a run in a session
with earlier warnings corresponds to the run without them. That leaves the string table: what a body
is compiled into depends on the procedures before it only through the strings that were met there.

## Main definitions

* `Compiler.run`: what a list of procedures is compiled into by one compiler.

## Main results

* `Compiler.compile_eq`: what the assembler holds does not matter.
* `compile_behind`: the warnings before a body do not matter.
* `Compiler.compile_isolated`: what a body is compiled into by a compiler that was in use and by a
  fresh one.
* `CompilationUnit.run_of_compileMembers`: a unit is compiled by one compiler.
-/

namespace Pictograph

/-! ## The warnings before a body -/

/-- A session with warnings that were given before its own. -/
def Session.behind (s : Session) (earlier : Array Warning) : Session :=
  { s with warnings := earlier ++ s.warnings }

@[simp] theorem Session.strings_behind (s : Session) (earlier : Array Warning) :
    (s.behind earlier).strings = s.strings := rfl

@[simp] theorem Session.warnings_behind (s : Session) (earlier : Array Warning) :
    (s.behind earlier).warnings = earlier ++ s.warnings := rfl

/-- A body is a transcription of itself in a session with earlier warnings. Nothing corresponds but
what is the same. -/
def Transcription.behind (earlier : Array Warning) : Transcription where
  earlier := earlier.toList
  name := id
  place := Eq
  line := Eq
  name_injective := Function.injective_id
  line_of_place := congrArg Span.line

theorem Session.alike_behind (s : Session) (earlier : Array Warning) :
    s.Alike (.behind earlier) (s.behind earlier) where
  strings := rfl
  warnings := ⟨s.warnings.toList, Array.toList_append,
    List.forall₂_same.mpr fun w _ ↦ ⟨w.remark.rename_id.symm, rfl⟩⟩

section

variable {earlier : Array Warning}

theorem Fault.Alike.eq_of_behind {e e' : Fault} (h : e.Alike (.behind earlier) e') : e' = e := by
  cases h with
  | @diagnosed c c' p p' hc hp =>
    have hspan : p = p' := hp
    rw [hc.eq, hspan]
  | misfilled => rfl
  | overflowed => rfl

/-- Where lines correspond that are equal, so does code. -/
theorem Chunk.Alike.eq {τ : Transcription} {c c' : Chunk} (h : c.Alike τ c')
    (hline : ∀ {i j}, τ.line i j → i = j) : c' = c := by
  have hcells : List.Forall₂ Eq c.cells.toList c'.cells.toList :=
    h.imp fun cell cell' hcell ↦ by
      obtain ⟨word, line, mark⟩ := cell
      obtain ⟨word', line', mark'⟩ := cell'
      obtain ⟨rfl, hij, rfl⟩ := hcell
      obtain rfl : line = line' := hline hij
      rfl
  rw [List.forall₂_eq_eq_eq, Array.toList_inj] at hcells
  exact congrArg Chunk.mk hcells.symm

theorem Record.Alike.eq {τ : Transcription} {r r' : Record} (h : r.Alike τ r')
    (hline : ∀ {i j}, τ.line i j → i = j) : r' = r :=
  congrArg₂ Record.mk h.header (h.code.eq hline)

theorem Session.Alike.eq_behind {s s' : Session} (h : s.Alike (.behind earlier) s') :
    s' = s.behind earlier := by
  obtain ⟨hstrings, added, hadded, hwarnings⟩ := h
  have hsame : List.Forall₂ Eq s.warnings.toList added :=
    hwarnings.imp fun w w' hw ↦
      congrArg₂ Warning.mk (hw.remark.trans w.remark.rename_id).symm hw.span
  rw [List.forall₂_eq_eq_eq] at hsame
  have hlist : s'.warnings = earlier ++ s.warnings := by
    rw [← Array.toList_inj, Array.toList_append, hsame]
    exact hadded
  rw [behind, ← hlist, ← hstrings]

end

/-- **The warnings before a body do not matter.** -/
theorem compile_behind (cat : Catalogue) (options : Options) (session : Session)
    (earlier : Array Warning) (c : Class) (m : Member) (tokens : List Token) :
    compile cat options (session.behind earlier) c m tokens
      = ((compile cat options session c m tokens).1,
        (compile cat options session c m tokens).2.behind earlier) := by
  have htokens : List.Forall₂ (Token.Alike (.behind earlier)) tokens tokens :=
    List.forall₂_same.mpr fun t _ ↦ ⟨t.lexeme.rename_id.symm, rfl⟩
  obtain ⟨hresult, hsession⟩ := Transcription.alike_compile cat options c m (fun _ ↦ rfl) rfl rfl
    (session.alike_behind earlier) htokens
  refine Prod.ext ?_ hsession.eq_behind
  generalize (compile cat options session c m tokens).1 = result,
    (compile cat options (session.behind earlier) c m tokens).1 = result' at hresult ⊢
  cases hresult with
  | error he => rw [he.eq_of_behind]
  | ok hrecord => rw [hrecord.eq id]

/-- A session without warnings, put behind the warnings of another with the same strings. -/
theorem Session.eq_behind (s : Session) : s = Session.behind ⟨s.strings, #[]⟩ s.warnings := by
  rw [behind, Array.append_empty]

namespace Compiler

/-! ## What the assembler holds -/

@[simp] theorem catalogue_clear (k : Compiler) : k.clear.catalogue = k.catalogue := rfl

@[simp] theorem options_clear (k : Compiler) : k.clear.options = k.options := rfl

/-- Behind a body that was given up, the analysis begins as it does at the start of the run. -/
@[simp] theorem begin_clear (k : Compiler) (fields : Option Scope) (tokens : List Token) :
    k.clear.begin fields tokens = State.start fields k.session tokens := rfl

/-- **What the assembler holds does not matter.** Whatever a compiler has done before, it compiles a
body into what the body is compiled into with a new assembler. -/
theorem compile_eq (k : Compiler) (c : Class) (m : Member) (tokens : List Token) :
    ((k.compile c m tokens).1, (k.compile c m tokens).2.session)
      = Pictograph.compile k.catalogue k.options k.session c m tokens := by
  rw [compile, Pictograph.compile]
  by_cases hm : m.isNative
  · rw [if_pos hm, if_pos hm]
  · rw [if_neg hm, if_neg hm]
    simp only [catalogue_clear, options_clear, begin_clear]
    cases k.catalogue.fieldsFor c m with
    | error fault => rfl
    | ok fields =>
      dsimp only
      rw [analyse, ← State.start]
      cases Analysis.body (.ofMember k.catalogue k.options c m) (Analysis.expression tokens.length)
        m.arguments [] 0 (State.start fields k.session tokens) with
      | error fault s => rfl
      | ok summary s =>
        dsimp only
        cases finishRecord m summary s <;> rfl

/-- A compiler goes over to the next procedure with the same declarations and the same options. -/
theorem compile_keeps (k : Compiler) (c : Class) (m : Member) (tokens : List Token) :
    (k.compile c m tokens).2.catalogue = k.catalogue
      ∧ (k.compile c m tokens).2.options = k.options := by
  rw [compile]
  by_cases hm : m.isNative
  · rw [if_pos hm]
    exact ⟨rfl, rfl⟩
  · rw [if_neg hm]
    dsimp only
    split
    · exact ⟨rfl, rfl⟩
    split
    · exact ⟨rfl, rfl⟩
    split
    · exact ⟨rfl, rfl⟩
    · exact ⟨rfl, rfl⟩

/-! ## Runs -/

/-- A procedure that is to be compiled. -/
structure Job where
  /-- The class that declares it. -/
  owner : Class
  /-- The procedure. -/
  member : Member
  /-- The tokens of its body. -/
  tokens : List Token

/-- A compiler before the first procedure. -/
def fresh (cat : Catalogue) (options : Options) (session : Session) : Compiler :=
  { catalogue := cat, options := options, session := session }

/-- What one procedure is compiled into. -/
def process (k : Compiler) (job : Job) : Except Fault Record × Compiler :=
  k.compile job.owner job.member job.tokens

/-- What procedures are compiled into, one after the other. One that is rejected does not keep the
compiler from the next. -/
def run (k : Compiler) : List Job → List (Except Fault Record) × Compiler
  | [] => ([], k)
  | job :: jobs =>
    let (result, next) := k.process job
    let (results, last) := next.run jobs
    (result :: results, last)

theorem run_keeps (k : Compiler) (jobs : List Job) :
    (k.run jobs).2.catalogue = k.catalogue ∧ (k.run jobs).2.options = k.options := by
  induction jobs generalizing k with
  | nil => exact ⟨rfl, rfl⟩
  | cons job jobs ih =>
    obtain ⟨hcat, hoptions⟩ := k.compile_keeps job.owner job.member job.tokens
    obtain ⟨ihcat, ihoptions⟩ := ih (k.process job).2
    exact ⟨ihcat.trans hcat, ihoptions.trans hoptions⟩

/-- What a procedure is compiled into if nothing was warned about before, and only strings were
met. -/
def alone (cat : Catalogue) (options : Options) (strings : StringTable) (job : Job) :
    Except Fault Record × Session :=
  Pictograph.compile cat options ⟨strings, #[]⟩ job.owner job.member job.tokens

/-- The declarations, the options and the strings settle what a procedure is compiled into. Its
warnings are added behind those that are there. -/
theorem process_eq (k : Compiler) (job : Job) :
    ((k.process job).1, (k.process job).2.session)
      = ((alone k.catalogue k.options k.session.strings job).1,
        (alone k.catalogue k.options k.session.strings job).2.behind k.session.warnings) := by
  rw [process, compile_eq, alone, ← compile_behind, ← Session.eq_behind]

/-- **Compilations are isolated from each other.** A compiler compiles procedures, some of which it
may reject, and then one more. A fresh compiler whose session starts with the same strings compiles
this one into the same record or rejects it for the same fault, meets the same strings in it, and
adds the same warnings. -/
theorem compile_isolated {cat : Catalogue} {options : Options} {session session' : Session}
    {jobs : List Job} {results : List (Except Fault Record)} {k : Compiler}
    (hrun : (fresh cat options session).run jobs = (results, k))
    (hstrings : session'.strings = k.session.strings) (job : Job) :
    (k.process job).1 = ((fresh cat options session').process job).1
    ∧ (k.process job).2.session.strings
      = ((fresh cat options session').process job).2.session.strings
    ∧ ∃ added, (k.process job).2.session.warnings = k.session.warnings ++ added
      ∧ ((fresh cat options session').process job).2.session.warnings
        = session'.warnings ++ added := by
  obtain ⟨hcat, hoptions⟩ : k.catalogue = cat ∧ k.options = options := by
    have hkeeps := (fresh cat options session).run_keeps jobs
    rw [hrun] at hkeeps
    exact hkeeps
  have hused := k.process_eq job
  rw [hcat, hoptions, ← hstrings] at hused
  have hfresh : (((fresh cat options session').process job).1,
      ((fresh cat options session').process job).2.session)
      = ((alone cat options session'.strings job).1,
        (alone cat options session'.strings job).2.behind session'.warnings) :=
    process_eq _ job
  obtain ⟨hresult, hsession⟩ := Prod.mk.inj hused
  obtain ⟨hresult', hsession'⟩ := Prod.mk.inj hfresh
  rw [hresult, hresult', hsession, hsession']
  simp only [Session.strings_behind, Session.warnings_behind, true_and]
  exact ⟨_, rfl, rfl⟩

end Compiler

/-! ## Units -/

namespace CompilationUnit

/-- What a unit hands to a compiler for a member. -/
def job (u : CompilationUnit) (c : Class) (m : Member) : Compiler.Job where
  owner := c
  member := m
  tokens := u.tokensOf c m

variable {u : CompilationUnit} {k : Compiler}

theorem process_of_compileMember {c : Class} {m : Member} {q : CompiledMember} {session : Session}
    (hcat : k.catalogue = u.catalogue) (hoptions : k.options = u.options)
    (h : u.compileMember k.session c m = .ok (q, session)) :
    (k.process (u.job c m)).1 = .ok q.record ∧ (k.process (u.job c m)).2.session = session := by
  obtain ⟨-, -, hcompile⟩ := compile_of_compileMember h
  have hprocess := k.compile_eq c m (u.tokensOf c m)
  rw [hcat, hoptions, hcompile] at hprocess
  exact Prod.mk.inj hprocess

/-- **A unit is compiled by one compiler.** -/
theorem run_of_compileMembers {ms : List (Class × Member)} {qs : List CompiledMember}
    {session : Session} (hcat : k.catalogue = u.catalogue) (hoptions : k.options = u.options)
    (h : u.compileMembers k.session ms = .ok (qs, session)) :
    (k.run (ms.map fun (c, m) ↦ u.job c m)).1 = qs.map (.ok ·.record)
      ∧ (k.run (ms.map fun (c, m) ↦ u.job c m)).2.session = session := by
  induction ms generalizing k qs with
  | nil =>
    cases h
    exact ⟨rfl, rfl⟩
  | cons cm ms ih =>
    obtain ⟨⟨q, session₁⟩, hfirst, h⟩ := Catalogue.bind_ok.mp h
    obtain ⟨⟨qs', session₂⟩, hrest, h⟩ := Catalogue.bind_ok.mp h
    cases h
    obtain ⟨hresult, rfl⟩ := process_of_compileMember hcat hoptions hfirst
    obtain ⟨hkcat, hkoptions⟩ := k.compile_keeps cm.1 cm.2 (u.job cm.1 cm.2).tokens
    obtain ⟨hresults, hsession⟩ := ih (hkcat.trans hcat) (hkoptions.trans hoptions) hrest
    rw [List.map_cons, List.map_cons, Compiler.run, ← hresult, ← hresults]
    exact ⟨rfl, hsession⟩

end CompilationUnit

/-! ## A sample -/

namespace Sample

/-- The class 🐤 as it is registered. -/
def brooder : Class := (Catalogue.empty.addIfPossible (.ofClass wide)).entry brood

/-- A body that does nothing but compute a truth value. If it is to be rejected, a branch without a
condition follows. -/
def idle (m : Member) (rejected : Bool) : Compiler.Job where
  owner := brooder
  member := m
  tokens := [word (.boolean true), ask (if rejected then .ifBranch else .blockClose)]

end Sample

/-- The first body is rejected while a reservation is open and after a warning. The second one is
compiled like the first body of a fresh compiler, with a warning of its own. -/
theorem compile_isolated_sample :
    ∃ m ∈ Sample.brooder.methods, ∃ results k,
      (Compiler.fresh Sample.nest.catalogue {} .start).run [Sample.idle m true] = (results, k)
      ∧ k.assembler.holes = [2]
      ∧ k.session.warnings.size = 1
      ∧ (k.process (Sample.idle m false)).1.toOption.isSome
      ∧ (k.process (Sample.idle m false)).2.session.warnings.size = 2
      ∧ (k.process (Sample.idle m false)).1
        = ((Compiler.fresh Sample.nest.catalogue {} .start).process (Sample.idle m false)).1 := by
  obtain ⟨m, hm, hholes, hwarnings, hok, hsize, hstrings⟩ : ∃ m ∈ Sample.brooder.methods,
      let k := ((Compiler.fresh Sample.nest.catalogue {} .start).run [Sample.idle m true]).2
      k.assembler.holes = [2] ∧ k.session.warnings.size = 1
        ∧ (k.process (Sample.idle m false)).1.toOption.isSome
        ∧ (k.process (Sample.idle m false)).2.session.warnings.size = 2
        ∧ Session.start.strings = k.session.strings := by
    decide +kernel
  cases hrun : (Compiler.fresh Sample.nest.catalogue {} .start).run [Sample.idle m true] with
  | mk results k =>
    rw [hrun] at hholes hwarnings hok hsize hstrings
    obtain ⟨hresult, -, -⟩ := Compiler.compile_isolated hrun hstrings (Sample.idle m false)
    exact ⟨m, hm, results, k, hrun, hholes, hwarnings, hok, hsize, hresult⟩

end Pictograph
