import Pictograph.Proofs.Compilation.Reservations
import Pictograph.Proofs.Compilation.SourceLayout

/-!
# Diagnoses point into the body

What an analysis reports, it reports at a token of the body. The places that it reports come from
many sides: they are those of the token at hand, they are kept with variables, or they say where the
body ends. To trace them all, a run is compared with one from a session without warnings, and no
place corresponds to anything unless it may be blamed. That the runs correspond then says that
nothing else was blamed.

The fields of an object have no place in the body, and no diagnosis is placed at one. A body without
tokens has no place to blame. It is rejected before anything could be remarked on.

## Main definitions

* `Blamable`: the places that may be blamed for a body.

## Main results

* `analyse_blames_tokens`: errors and warnings are at tokens of the body.
-/

namespace Pictograph

/-- The places that may be blamed for a body: those of its tokens, or nowhere if it has none. -/
def Blamable (tokens : List Token) (p : Span) : Prop :=
  p ∈ tokens.map (·.span) ∨ tokens = [] ∧ p = .nowhere

/-- A body is a transcription of itself, in a session with earlier warnings. A place corresponds to
itself, if it may be blamed. -/
def Transcription.blaming (tokens : List Token) (earlier : List Warning) : Transcription where
  earlier := earlier
  name := id
  place p q := p = q ∧ Blamable tokens q
  line := Eq
  name_injective := Function.injective_id
  line_of_place h := congrArg Span.line h.1

/-- A run corresponds to the one from the same strings without warnings. -/
theorem Transcription.ends_analyse_blaming (Γ : Setting) (arguments : List Argument)
    (fields : Option Scope) (session : Session) (tokens : List Token) :
    (blaming tokens session.warnings.toList).analysis.Ends (fun _ ↦ Eq) tokens.length
      (analyse Γ arguments fields ⟨session.strings, #[]⟩ tokens)
      (analyse Γ arguments fields session tokens) := by
  have hsession : Session.Alike (blaming tokens session.warnings.toList) ⟨session.strings, #[]⟩
      session := ⟨rfl, [], (List.append_nil _).symm, .nil⟩
  refine ends_analyse_same Γ arguments fields (fun _ ↦ rfl) rfl hsession ?_
    fun h ↦ ⟨rfl, .inr ⟨h, rfl⟩⟩
  refine List.forall₂_same.mpr fun t ht ↦ ⟨t.lexeme.rename_id.symm, rfl, ?_⟩
  exact .inl (List.mem_map_of_mem ht)

/-! ## Bodies without tokens -/

namespace Analysis

variable {α β : Type} {m : Analysis α} (Γ : Setting) (rec : Recursion) (span : Span)

/-- An analysis that neither reads nor reports anything. -/
def Idle (m : Analysis α) : Prop :=
  ∀ s, (final (m s)).session = s.session ∧ (final (m s)).cursor = s.cursor

theorem Idle.bind {f : α → Analysis β} (hm : Idle m) (hf : ∀ a, Idle (f a)) : Idle (m >>= f) := by
  intro s
  have hfirst := hm s
  cases hrun : m s with
  | error fault t =>
    rw [hrun] at hfirst
    rw [bind_of_error hrun]
    exact hfirst
  | ok a t =>
    rw [hrun] at hfirst
    rw [bind_of_ok hrun]
    exact ⟨(hf a t).1.trans hfirst.1, (hf a t).2.trans hfirst.2⟩

theorem idle_newSlot : Idle (newSlot Γ span) := by
  intro s
  rcases newSlot_cases Γ span s with h | ⟨fault, -, h⟩
  · rw [h]
    exact ⟨rfl, rfl⟩
  · rw [h]
    exact ⟨rfl, rfl⟩

theorem idle_declare (v : Variable) : Idle (declare v) := by
  intro s
  rcases declare_cases v s with ⟨e, -, h⟩ | ⟨fault, -, h⟩
  · rw [h]
    exact ⟨rfl, rfl⟩
  · rw [h]
    exact ⟨rfl, rfl⟩

theorem idle_declareArguments (arguments : List Argument) :
    Idle (arguments.forM (declareArgument Γ span)) := by
  induction arguments with
  | nil => exact fun _ ↦ ⟨rfl, rfl⟩
  | cons a arguments ih =>
    exact ((idle_newSlot Γ span).bind fun _ ↦ idle_declare _).bind fun _ ↦ ih

/-- The statements of a body that has come to its last token are rejected at once. -/
theorem bodyStatements_of_nil {s : State} (h : s.cursor.after = []) :
    ∃ fault, bodyStatements Γ rec s = .error fault s := by
  obtain ⟨⟨before, after⟩, assembler, session, environment, frame⟩ := s
  cases h
  exact ⟨_, rfl⟩

/-- **A body without tokens is rejected**, and nothing is reported about it. -/
theorem body_of_nil (arguments : List Argument) {s : State} (h : s.cursor.after = []) :
    ∃ fault s', body Γ rec arguments [] 0 s = .error fault s' ∧ s'.session = s.session := by
  have hidle := idle_declareArguments Γ s.cursor.here arguments s
  cases hrun : arguments.forM (declareArgument Γ s.cursor.here) s with
  | error fault t =>
    rw [hrun] at hidle
    exact ⟨fault, t, (bind_of_ok rfl).trans (bind_of_error hrun), hidle.1⟩
  | ok _ t =>
    rw [hrun] at hidle
    have ht : t.cursor.after = [] := by
      rw [show t.cursor = s.cursor from hidle.2, h]
    obtain ⟨fault, hstatements⟩ := bodyStatements_of_nil Γ rec ht
    refine ⟨fault, t, ?_, hidle.1⟩
    exact (bind_of_ok rfl).trans ((bind_of_ok hrun).trans
      ((bind_of_ok rfl).trans (bind_of_error hstatements)))

end Analysis

/-! ## What is reported -/

section

variable {tokens : List Token} {earlier : List Warning}

theorem Fault.Alike.blamable {e fault : Fault} (h : e.Alike (.blaming tokens earlier) fault)
    (hfault : fault ≠ .misfilled) :
    fault = .overflowed ∨ ∃ d, fault = .diagnosed d ∧ Blamable tokens d.span := by
  cases h with
  | diagnosed _ hp => exact .inr ⟨_, rfl, hp.2⟩
  | misfilled => exact absurd rfl hfault
  | overflowed => exact .inl rfl

/-- What was added to the earlier warnings is at places that may be blamed. -/
theorem Session.Alike.blamable {s s' : Session} (h : s.Alike (.blaming tokens earlier) s') :
    ∃ added, s'.warnings.toList = earlier ++ added ∧ ∀ w ∈ added, Blamable tokens w.span := by
  obtain ⟨added, hadded, hwarnings⟩ := h.warnings
  refine ⟨added, hadded, fun w hw ↦ ?_⟩
  obtain ⟨i, hi, rfl⟩ := List.getElem_of_mem hw
  exact (hwarnings.get (hwarnings.length_eq ▸ hi) hi).span.2

end

/-- **Errors and warnings are at tokens of the body.** An analysis that fails reports the place of
one of the tokens, or nowhere if there are none; the only other way to fail is that a counter leaves
its range. Whether it fails or not, all warnings that it adds are at places of tokens. -/
theorem analyse_blames_tokens (Γ : Setting) (arguments : List Argument) (fields : Option Scope)
    (session : Session) (tokens : List Token) :
    (∀ fault s, analyse Γ arguments fields session tokens = .error fault s →
      fault = .overflowed ∨ ∃ d, fault = .diagnosed d ∧ Blamable tokens d.span)
    ∧ ∃ added, (Analysis.final (analyse Γ arguments fields session tokens)).session.warnings.toList
        = session.warnings.toList ++ added
      ∧ ∀ w ∈ added, w.span ∈ tokens.map (·.span) := by
  have hend := Transcription.ends_analyse_blaming Γ arguments fields session tokens
  constructor
  · intro fault s hrun
    have hfault : fault ≠ .misfilled := by
      rintro rfl
      exact analyse_ne_misfilled _ _ _ _ _ s hrun
    rw [hrun] at hend
    obtain ⟨e, he⟩ := Analysis.exists_alike_fault hend
    exact he.blamable hfault
  · cases tokens with
    | nil =>
      have hcursor : (State.start fields session []).cursor.after = [] := rfl
      obtain ⟨fault, s, hrun, hsession⟩ :=
        Analysis.body_of_nil Γ (Analysis.expression 0) arguments hcursor
      have hanalyse : analyse Γ arguments fields session [] = .error fault s := hrun
      rw [hanalyse]
      refine ⟨[], ?_, fun w hw ↦ absurd hw List.not_mem_nil⟩
      rw [List.append_nil]
      exact congrArg (·.warnings.toList) hsession
    | cons token tokens =>
      obtain ⟨added, hadded, hblamable⟩ := (Analysis.alike_final hend).session.blamable
      refine ⟨added, hadded, fun w hw ↦ ?_⟩
      rcases hblamable w hw with h | ⟨h, -⟩
      · exact h
      · cases h

namespace Sample

/-- A body that computes a truth value and has no end, each of its tokens on a line of its own. -/
def endless : List Token :=
  spread [word (.boolean true), word (.boolean false)]

end Sample

/-- Both statements of the body are remarked on, and the missing end is reported at the last. -/
theorem analyse_blames_tokens_sample :
    ∃ s added, analyse (.ofMember Sample.tellerCatalogue {} Sample.tellerClass Sample.tell) []
        none .start Sample.endless = .error (Cause.unexpectedEnd.at ⟨2, 1, 1⟩) s
      ∧ Blamable Sample.endless ⟨2, 1, 1⟩
      ∧ s.session.warnings.toList = Session.start.warnings.toList ++ added
      ∧ added.length = 2
      ∧ ∀ w ∈ added, w.span ∈ Sample.endless.map (·.span) := by
  obtain ⟨s, hrun, hsize⟩ : ∃ s, analyse (.ofMember Sample.tellerCatalogue {} Sample.tellerClass
      Sample.tell) [] none .start Sample.endless = .error (Cause.unexpectedEnd.at ⟨2, 1, 1⟩) s
      ∧ s.session.warnings.size = 2 :=
    ⟨_, rfl, by decide +kernel⟩
  obtain ⟨herror, added, hadded, hwarnings⟩ := analyse_blames_tokens
    (.ofMember Sample.tellerCatalogue {} Sample.tellerClass Sample.tell) [] none .start
    Sample.endless
  have hblamable : Blamable Sample.endless ⟨2, 1, 1⟩ := by
    rcases herror _ s hrun with h | ⟨d, h, hd⟩
    · cases h
    · cases h
      exact hd
  rw [hrun] at hadded
  refine ⟨s, added, hrun, hblamable, hadded, ?_, hwarnings⟩
  have hlength := congrArg List.length hadded
  rw [List.length_append] at hlength
  exact (Nat.zero_add _).symm.trans (hlength.symm.trans hsize)

end Pictograph
