import Pictograph.Proofs.Compilation.SourceLayout
import Pictograph.Proofs.Compilation.WrittenCopies

/-!
# Following a recommendation

A body may recommend to freeze a variable that an assignment introduced. If it declares the variable
frozen there instead, it is compiled into the same, provided that no closure writes to a copy of the
variable that it took over. Nothing else can go wrong: the body is rejected only because a frozen
variable is written to, and only if it does so in such a closure.

The recommendation does not look at the copies. A closure marks its own copy as written and leaves
the variable outside unmarked, but its copy of a frozen variable is frozen, too.

## Main results

* `compile_freezeAt`: what becomes of a body that follows a recommendation.
* `recommendation_misleads`: a body that is rejected because it did.
-/

namespace Pictograph

open Analysis

section

variable {cat : Catalogue} {options : Options} {session session' : Session} {c : Class}
  {m : Member} {tokens : List Token} {record : Record} {o : Origin} {n₀ : Nat} {q₀ : Query}

/-- The analysis of a body that declares a variable frozen where an assignment introduced it ends as
that of the original one, or the original one writes to the variable once more. -/
theorem ends_analyse_freezeAt {fields : Option Scope} {summary : Summary} {ending : State}
    {t₀ : Ty} {s₀ : State} (hq₀ : ReachedIn cat options session c m tokens n₀ q₀)
    (hintroduces : q₀.Introduces o) (hanswer₀ : (Analysis.expression n₀).answer q₀ = .ok t₀ s₀)
    (hfields : cat.fieldsFor c m = .ok fields)
    (hbody : analyse (.ofMember cat options c m) m.arguments fields session tokens
      = .ok summary ending) :
    (q₀.replacement o (∃ n q, ReachedIn cat options session c m tokens n q ∧ q.Overwrites o)
      hanswer₀ tokens.length).Ends Eq
      (analyse (.ofMember cat options c m) m.arguments fields session
        (freezeAt q₀.state.cursor.remaining tokens)) summary ending := by
  obtain ⟨hnative, fields', hfields', hq₀⟩ := hq₀
  cases hfields.symm.trans hfields'
  have hstart : (State.start fields session tokens).Freezes o q₀.state.cursor.remaining
      (.start fields session (freezeAt q₀.state.cursor.remaining tokens)) :=
    { cursor := .start _ _, assembler := rfl, strings := rfl, environment := .refl _, frame := rfl }
  rw [analyse, length_freezeAt]
  refine (Follows.body m.arguments 0 .nil).ends hstart hbody ⟨?_, fun q hq ↦ ?_⟩
  · obtain ⟨q₁, hq₁, hcontains⟩ := hq₀.exists_asks
    exact .inr (.inr ⟨q₁, hq₁, hcontains⟩)
  · exact Reaches.repeats (.asked hq) hintroduces hanswer₀ fun n q hq hoverwrites ↦
      ⟨n, q, ⟨hnative, fields, hfields, hq⟩, hoverwrites⟩

/-- **What becomes of a body that follows a recommendation.** An accepted body recommends to freeze
a variable that an assignment introduced, and its name stands only once at its place. If the
variable is declared frozen there instead, then the body is compiled into the same record with the
same strings, or it is rejected because it writes to the frozen variable. In the second case some
expression of the original body writes to a copy of the variable in a closure that took it over. -/
theorem compile_freezeAt
    (hcompile : compile cat options session c m tokens = (.ok record, session'))
    (hq₀ : ReachedIn cat options session c m tokens n₀ q₀) (hintroduces : q₀.Introduces o)
    (hplaces : tokens.countP o.isNamedBy ≤ 1) (hrecommends : session.Recommends session' o) :
    (∃ session'', compile cat options session c m (freezeAt q₀.state.cursor.remaining tokens)
        = (.ok record, session'') ∧ session''.strings = session'.strings)
      ∨ (∃ p session'', compile cat options session c m
            (freezeAt q₀.state.cursor.remaining tokens)
          = (.error ((Cause.frozenMutation o.name).at p), session''))
        ∧ ∃ n q n₁ q₁, ReachedIn cat options session c m tokens n q ∧ q.Overwrites o
          ∧ ReachedIn cat options session c m tokens n₁ q₁ ∧ q₁.Captures o ∧ q₁.Leads n₁ n q := by
  obtain ⟨t₀, s₀, hanswer₀⟩ := hq₀.answered hcompile
  have hnative := hq₀.1
  obtain ⟨fields, summary, ending, hfields, hbody, hfinish, rfl⟩ :=
    (compile_ok_iff hnative).mp hcompile
  obtain ⟨hend, hholes, rfl⟩ := finishRecord_ok_iff.mp hfinish
  rcases ends_analyse_freezeAt hq₀ hintroduces hanswer₀ hfields hbody with
    ⟨summary', ending', hbody', rfl, hsame⟩ | ⟨⟨n, q, hq, hoverwrites⟩, p, ending', hrefused⟩
  · refine .inl ⟨ending'.session, (compile_ok_iff hnative).mpr
      ⟨fields, summary, ending', hfields, hbody', finishRecord_ok_iff.mpr ⟨?_, ?_, ?_⟩, rfl⟩,
      hsame.strings⟩
    · rw [hsame.cursor.after, hend, freezeAt]
    · rw [hsame.assembler, hholes]
    · rw [hsame.assembler]
  · refine .inr ⟨⟨p, ending'.session, ?_⟩, n, q, ?_⟩
    · unfold compile
      rw [if_neg (Bool.eq_false_iff.mp hnative), hfields]
      dsimp only
      rw [hrefused]
      rfl
    · obtain ⟨n₁, q₁, hq₁, hcaptures, hleads⟩ :=
        hq.captured_of_overwrites hcompile hplaces hrecommends hoverwrites
      exact ⟨n₁, q₁, hq, hoverwrites, hq₁, hcaptures, hleads⟩

end

namespace Sample

/-- A body that assigns to a variable and has a closure that reads it, `🍮 x 1 🍇 ☁ x 🍉 🍉`. -/
def assignThenRead : List Token :=
  spread [ask .assign, word (.reference "x"), word (.integer 1), ask .blockOpen, ask .isNothingness,
    word (.reference "x"), ask .blockClose, ask .blockClose]

/-- A body that assigns to a variable and has a closure that assigns to it, too,
`🍮 x 1 🍇 🍮 x 2 🍉 🍉`. -/
def assignThenWrite : List Token :=
  spread [ask .assign, word (.reference "x"), word (.integer 1), ask .blockOpen, ask .assign,
    word (.reference "x"), word (.integer 2), ask .blockClose, ask .blockClose]

/-- The variable of both bodies. -/
def assigned : Origin := ⟨"x", ⟨2, 1, 1⟩⟩

/-- The query for the assignment that a body starts with. -/
def assignmentOf (body : List Token) : Query :=
  .first (.ofMember catalogue {} parentClass method)
    (some ⟨catalogue.fieldVariables parentClass false⟩) .start ⟨(ask .assign).lexeme, ⟨1, 1, 1⟩⟩
    body.tail

theorem introduces_assignmentOf {body : List Token} {t : Token} {rest : List Token}
    (hbody : body.tail = t :: rest) (ht : assigned.isNamedBy t) :
    (assignmentOf body).Introduces assigned where
  asksFor := rfl
  named := ⟨t, congrArg List.head? hbody, ht⟩
  unresolved := by
    have hfree : (Environment.start
        (some ⟨catalogue.fieldVariables parentClass false⟩)).resolve? assigned.name = none := by
      decide +kernel
    exact hfree

theorem recommends_of_mem {body : List Token} {session' : Session} {record : Record}
    (h : compile catalogue {} .start parentClass method body = (.ok record, session'))
    (hmem : assigned.recommendation
      ∈ (compile catalogue {} .start parentClass method body).2.warnings) :
    Session.start.Recommends session' assigned := by
  rw [h] at hmem
  exact ⟨session'.warnings, Array.empty_append.symm, hmem⟩

end Sample

/-- A body with a closure that only reads the variable may follow the recommendation. -/
theorem compile_freezeAt_assignThenRead :
    ∃ record session' session'', compile Sample.catalogue {} .start Sample.parentClass
        Sample.method Sample.assignThenRead = (.ok record, session')
      ∧ Session.start.Recommends session' Sample.assigned
      ∧ compile Sample.catalogue {} .start Sample.parentClass Sample.method
          (freezeAt 7 Sample.assignThenRead) = (.ok record, session'') := by
  have hlisting : (listing? Sample.catalogue {} .start Sample.parentClass Sample.method
      Sample.assignThenRead).isSome := by
    decide +kernel
  obtain ⟨listing, hlisting⟩ := Option.isSome_iff_exists.mp hlisting
  obtain ⟨record, session', h, -⟩ := exists_record hlisting
  have hreached : ReachedIn Sample.catalogue {} .start Sample.parentClass Sample.method
      Sample.assignThenRead 8 (Sample.assignmentOf Sample.assignThenRead) :=
    reachedIn_first (by decide +kernel) rfl (by decide +kernel) (by decide +kernel)
  have hrecommends := Sample.recommends_of_mem h (by decide +kernel)
  have hplaces : Sample.assignThenRead.countP Sample.assigned.isNamedBy ≤ 1 := by decide +kernel
  rcases compile_freezeAt h hreached (Sample.introduces_assignmentOf rfl (by decide +kernel))
    hplaces hrecommends with ⟨session'', hfrozen, -⟩ | ⟨⟨p, session'', hfrozen⟩, -⟩
  · exact ⟨record, session', session'', h, hrecommends, hfrozen⟩
  · have haccepted : (compile Sample.catalogue {} .start Sample.parentClass Sample.method
        (freezeAt 7 Sample.assignThenRead)).1.isOk := by
      decide +kernel
    rw [show compile Sample.catalogue {} .start Sample.parentClass Sample.method
      (freezeAt 7 Sample.assignThenRead) = _ from hfrozen] at haccepted
    cases haccepted

/-- **A recommendation may mislead.** The body is accepted and recommends to freeze the variable
that its assignment introduces. With the variable declared frozen there, it is rejected: the
assignment in the closure writes to a copy, which is frozen, too. -/
theorem recommendation_misleads :
    ∃ record session' q, compile Sample.catalogue {} .start Sample.parentClass Sample.method
        Sample.assignThenWrite = (.ok record, session')
      ∧ ReachedIn Sample.catalogue {} .start Sample.parentClass Sample.method
          Sample.assignThenWrite 9 q
      ∧ q.Introduces Sample.assigned ∧ Session.start.Recommends session' Sample.assigned
      ∧ (compile Sample.catalogue {} .start Sample.parentClass Sample.method
          (freezeAt q.state.cursor.remaining Sample.assignThenWrite)).1
        = .error ((Cause.frozenMutation "x").at ⟨6, 1, 1⟩) := by
  have hlisting : (listing? Sample.catalogue {} .start Sample.parentClass Sample.method
      Sample.assignThenWrite).isSome := by
    decide +kernel
  obtain ⟨listing, hlisting⟩ := Option.isSome_iff_exists.mp hlisting
  obtain ⟨record, session', h, -⟩ := exists_record hlisting
  refine ⟨record, session', Sample.assignmentOf Sample.assignThenWrite, h, ?_,
    Sample.introduces_assignmentOf rfl (by decide +kernel),
    Sample.recommends_of_mem h (by decide +kernel), by decide +kernel⟩
  exact reachedIn_first (by decide +kernel) rfl (by decide +kernel) (by decide +kernel)

end Pictograph
