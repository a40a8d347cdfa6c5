import Pictograph.Proofs.Analysis.Superclass
import Pictograph.Proofs.Compilation.Emitted

/-!
# The superclass is initialized once and first

An initializer of a subclass calls one initializer of the superclass, and uses the instance only
behind that call.

In an accepted body no superinitializer is in a block or in a closure, and exactly one is not in the
arguments of another. So the superclass is initialized once, unless a superinitializer is in the
arguments of another or in a condition that may be skipped or repeated. All references to the
instance in the code of the initializer itself stand behind every superinitializer. Calls of methods
of the superclass need not, and neither do references from closures.

## Main results

* `superclass_initialized_once`: how many superinitializers a body has, and where.
* `superclass_initialized_in_loop`: a body that may initialize the superclass many times.
* `instance_used_behind_superinitializer`: what stands behind the superinitializers.
* `superclass_method_before_superinitializer`, `closure_before_superinitializer`: bodies that use
  the instance in front of one.
-/

namespace Pictograph

/-! ## Opcodes of a body -/

section

variable {answered : Query → State → Prop} {o : Outline} {code : Chunk}

theorem countP_marks (h : IsOutline answered o code) (op : Opcode) :
    code.marks.countP (·.2 == op) = (Outline.survey o 0).countP (·.op == op) := by
  rw [marks_of_isOutline h, surveyMarks, List.countP_map]
  rfl

end

/-- Which procedures have to initialize the superclass: the initializers of subclasses. -/
def InitializesSuper (c : Class) (m : Member) : Prop :=
  m.kind = .initializer ∧ c.superclass?.isSome

theorem initializesSuper_iff {cat : Catalogue} {options : Options} {c : Class} {m : Member}
    (hc : cat.class? c.id = some c) :
    (Setting.ofMember cat options c m).initializesSuper ↔ InitializesSuper c m := by
  have hclass : (Setting.ofMember cat options c m).class? = some c := hc
  rw [Setting.initializesSuper, Setting.hasSuperclass, hclass, Bool.and_eq_true, Option.any_some]
  refine and_congr ?_ Iff.rfl
  simp [Setting.ofMember]

/-! ## How often -/

/-- Code initializes the superclass once: it has one superinitializer, which is in no block, in no
closure and in no condition that may be skipped or repeated. -/
def InitializesOnce (code : Chunk) (o : Outline) : Prop :=
  code.marks.countP (·.2 == .superInitializer) = 1
    ∧ Supers (fun l ↦ l.inBlock = false ∧ l.inCondition = false ∧ l.inClosure = false)
      (Outline.survey o 0)

/-- What is left to say about an initializer of a subclass is whether a superinitializer is in the
arguments of another or in a condition. -/
def InitializesPlainly (o : Outline) : Prop :=
  Supers (fun l ↦ l.inSuperArguments = false ∧ l.inCondition = false) (Outline.survey o 0)

theorem countP_superInitializer (ls : List Located) :
    ls.countP (·.op == .superInitializer)
      = ls.countP (·.isOuterSuper)
        + ls.countP fun l ↦ l.op == .superInitializer && l.inSuperArguments := by
  rw [List.countP_eq_countP_filter_add ls _ fun l ↦ !l.inSuperArguments, List.countP_filter,
    List.countP_filter]
  simp only [Bool.not_not]
  rfl

/-- If there is one superinitializer that counts, there is no other one just if none is in arguments
of another. -/
theorem countP_eq_one_iff {ls : List Located} (h : ls.countP (·.isOuterSuper) = 1) :
    ls.countP (·.op == .superInitializer) = 1 ↔ Supers (fun l ↦ l.inSuperArguments = false) ls := by
  rw [countP_superInitializer, h, Nat.add_eq_left, List.countP_eq_zero]
  refine forall₂_congr fun l _ ↦ ?_
  rw [Bool.and_eq_true, not_and, Bool.not_eq_true, beq_iff_eq]

theorem initializesOnce_iff {answered : Query → State → Prop} {o : Outline} {code : Chunk}
    (h : IsOutline answered o code) (hcount : (Outline.survey o 0).countP (·.isOuterSuper) = 1)
    (hout : Supers (fun l ↦ l.inBlock = false ∧ l.inClosure = false) (Outline.survey o 0)) :
    InitializesOnce code o ↔ InitializesPlainly o := by
  rw [InitializesOnce, countP_marks h, countP_eq_one_iff hcount]
  constructor
  · intro ⟨hargs, hregions⟩ l hl hs
    exact ⟨hargs l hl hs, (hregions l hl hs).2.1⟩
  · intro hplain
    refine ⟨fun l hl hs ↦ (hplain l hl hs).1, fun l hl hs ↦ ?_⟩
    obtain ⟨hblock, hclosure⟩ := hout l hl hs
    exact ⟨hblock, (hplain l hl hs).2, hclosure⟩

/-- **The superclass is initialized once.** In an accepted initializer of a subclass no
superinitializer is in a block or in a closure, and exactly one is not in the arguments of another;
it is the only one, and executed once, just if none is in such arguments or in a condition. Other
procedures have no superinitializer. -/
theorem superclass_initialized_once {cat : Catalogue} {options : Options}
    {session session' : Session} {c : Class} {m : Member} {tokens : List Token} {record : Record}
    (hc : cat.class? c.id = some c)
    (h : compile cat options session c m tokens = (.ok record, session')) :
    ∃ o, IsOnlyOutline (AnsweredIn cat options session c m tokens) o record.code
      ∧ (InitializesSuper c m → m.isNative = false →
        Supers (fun l ↦ l.inBlock = false ∧ l.inClosure = false) (Outline.survey o 0)
          ∧ (Outline.survey o 0).countP (·.isOuterSuper) = 1
          ∧ (InitializesOnce record.code o ↔ InitializesPlainly o))
      ∧ (¬ InitializesSuper c m ∨ m.isNative →
        ∀ p ∈ record.code.marks, p.2 ≠ .superInitializer) := by
  cases hm : m.isNative with
  | true =>
    have ho := isOutline_native hm h (AnsweredIn cat options session c m tokens)
    refine ⟨[], ho.isOnly h, fun _ hn ↦ (nomatch hn), fun _ p hp ↦ ?_⟩
    obtain ⟨l, hl, -⟩ := (mem_marks_iff ho).mp hp
    exact nomatch hl
  | false =>
    obtain ⟨o, c₀, c₁, he⟩ := compile_emitted hm h
    have hwalk := he.emits.walk
    rw [he.flowDepth, he.calledSuper] at hwalk
    refine ⟨o, he.isOutline.isOnly h, fun hi _ ↦ ?_, fun hn p hp ↦ ?_⟩
    · have hcalled := he.accepts.calledSuper ((initializesSuper_iff hc).mpr hi)
      have hcount := hwalk.count_outer
      rw [hcalled] at hcount
      exact ⟨hwalk.outside, hcount, initializesOnce_iff he.isOutline hcount hwalk.outside⟩
    · have hi : (Setting.ofMember cat options c m).initializesSuper = false := by
        rw [Bool.eq_false_iff, Ne, initializesSuper_iff hc]
        exact hn.resolve_right Bool.false_ne_true
      obtain ⟨l, hl, rfl⟩ := (mem_marks_iff he.isOutline).mp hp
      exact hwalk.no_superInitializer (.inl hi) l hl

/-- A body that does nothing but initialize the superclass, `🐐 🆕 🍉`. -/
def Sample.superInitializerAlone : List Token :=
  [ask .superInitializer, word (.identifier initializer.symbol), ask .blockClose]

/-- An initializer that does nothing but initialize the superclass is accepted, and there is one
superinitializer in it that counts. -/
theorem superclass_initialized_once_sample :
    ∃ record session' o, compile Sample.catalogue {} .start Sample.childClass
        Sample.childInitializer Sample.superInitializerAlone = (.ok record, session')
      ∧ IsOnlyOutline (AnsweredIn Sample.catalogue {} .start Sample.childClass
        Sample.childInitializer Sample.superInitializerAlone) o record.code
      ∧ Supers (fun l ↦ l.inBlock = false ∧ l.inClosure = false) (Outline.survey o 0)
      ∧ (Outline.survey o 0).countP (·.isOuterSuper) = 1
      ∧ (InitializesOnce record.code o ↔ InitializesPlainly o) := by
  have hcode : listing? Sample.catalogue {} .start Sample.childClass Sample.childInitializer
      Sample.superInitializerAlone
        = some (Outline.entries [.plain .superInitializer [0, 0] []]) := by
    decide +kernel
  obtain ⟨record, session', h, -⟩ := exists_record hcode
  obtain ⟨o, ho, hcalls, -⟩ := superclass_initialized_once (by decide +kernel) h
  exact ⟨record, session', o, h, ho,
    hcalls ⟨by decide +kernel, by decide +kernel⟩ (by decide +kernel)⟩

/-- A body is accepted for an initializer of a subclass whose code does not initialize the
superclass once. -/
def InitializesNotOnce (cat : Catalogue) (options : Options) (session : Session) (c : Class)
    (m : Member) (tokens : List Token) : Prop :=
  cat.class? c.id = some c ∧ InitializesSuper c m ∧ m.isNative = false
    ∧ ∃ record session' o, compile cat options session c m tokens = (.ok record, session')
      ∧ IsOnlyOutline (AnsweredIn cat options session c m tokens) o record.code
      ∧ ¬ InitializesOnce record.code o

/-- A body with a superinitializer in the condition of a loop, `🔁 ☁ 🐐 🆕 🍇 🍉 🍉`. -/
def Sample.superInitializerInLoop : List Token :=
  [ask .repeatWhile, ask .isNothingness, ask .superInitializer,
    word (.identifier initializer.symbol), ask .blockOpen, ask .blockClose, ask .blockClose]

/-- The code of `Sample.superInitializerInLoop`. -/
def Sample.superInitializerInLoopOutline : Outline :=
  [.repeatWhile [.plain .isNothingness [] [.plain .superInitializer [0, 0] []]] []]

/-- **A condition is no block.** The condition of a loop may initialize the superclass, each time
that it is evaluated. -/
theorem superclass_initialized_in_loop :
    InitializesNotOnce Sample.catalogue {} .start Sample.childClass Sample.childInitializer
      Sample.superInitializerInLoop := by
  have hcode : listing? Sample.catalogue {} .start Sample.childClass Sample.childInitializer
      Sample.superInitializerInLoop
        = some (Outline.entries Sample.superInitializerInLoopOutline) := by
    decide +kernel
  obtain ⟨record, session', h, hl⟩ := exists_record hcode
  refine ⟨by decide +kernel, ⟨by decide +kernel, by decide +kernel⟩, by decide +kernel, record,
    session', _, h, (IsOutline.mk hl.symm ?_).isOnly h, fun ⟨_, hregions⟩ ↦ ?_⟩
  · simp only [Sample.superInitializerInLoopOutline, Outline.Follows, Item.Follows, true_and,
      and_true]
    and_intros <;> first | decide | exact hasCode_of_refuses h (by decide +kernel)
  · have hmem : ({ offset := 2, op := .superInitializer, words := [0, 0], inCondition := true } :
        Located) ∈ Outline.survey Sample.superInitializerInLoopOutline 0 := by
      decide
    exact nomatch (hregions _ hmem rfl).2.1

/-! ## In which order -/

/-- Instances are only used once the superclass was initialized: every reference to the instance and
every call of a method of the superclass stands behind every superinitializer. -/
def UsesFinishedInstance (code : Chunk) : Prop :=
  ∀ p ∈ code.marks, p.2 = .selfReference ∨ p.2 = .superMethodCall →
    ∀ p' ∈ code.marks, p'.2 = .superInitializer → p'.1 < p.1

/-- An instruction stands behind all superinitializers of a survey. -/
def Located.Behind (l : Located) (ls : List Located) : Prop :=
  Supers (fun l' ↦ l'.offset < l.offset) ls

/-- What is left to say about an initializer of a subclass is where the calls of methods of the
superclass stand, and the references to the instance in closures. -/
def CallsFinishedInstance (o : Outline) : Prop :=
  ∀ l ∈ Outline.survey o 0,
    l.op = .superMethodCall ∨ l.op = .selfReference ∧ l.inClosure → l.Behind (Outline.survey o 0)

/-- In an ordered survey references to the instance stand behind the superinitializers. -/
theorem behind_of_ordered {ls : List Located} (h : Ordered ls)
    (hp : ls.Pairwise fun l l' ↦ l.offset < l'.offset) :
    ∀ l ∈ ls, l.op = .selfReference → l.inClosure = false → l.Behind ls := by
  intro l hl hr hc l' hl' hs
  obtain ⟨i, hi, rfl⟩ := List.getElem_of_mem hl
  obtain ⟨j, hj, rfl⟩ := List.getElem_of_mem hl'
  -- offsets grow along a survey, so the order of its elements decides
  rcases Nat.lt_trichotomy i j with hij | rfl | hij
  · exact absurd hs (List.pairwise_iff_getElem.mp h i j hi hj hij hr hc)
  · exact nomatch hr.symm.trans hs
  · exact List.pairwise_iff_getElem.mp hp j i hj hi hij

theorem usesFinishedInstance_iff {answered : Query → State → Prop} {o : Outline} {code : Chunk}
    (h : IsOutline answered o code)
    (hself : ∀ l ∈ Outline.survey o 0, l.op = .selfReference → l.inClosure = false →
      l.Behind (Outline.survey o 0)) :
    UsesFinishedInstance code ↔ CallsFinishedInstance o := by
  constructor
  · intro hcode l hl hop l' hl' hs
    exact hcode _ ((mem_marks_iff h).mpr ⟨l, hl, rfl⟩) (hop.symm.imp_left And.left) _
      ((mem_marks_iff h).mpr ⟨l', hl', rfl⟩) hs
  · intro hcalls p hp hop p' hp' hs
    obtain ⟨l, hl, rfl⟩ := (mem_marks_iff h).mp hp
    obtain ⟨l', hl', rfl⟩ := (mem_marks_iff h).mp hp'
    rcases hop with hop | hop
    · cases hc : l.inClosure with
      | false => exact hself l hl hop hc l' hl' hs
      | true => exact hcalls l hl (.inr ⟨hop, hc⟩) l' hl' hs
    · exact hcalls l hl (.inl hop) l' hl' hs

/-- **The instance is used behind the superinitializer.** In an accepted initializer of a subclass
every reference to the instance outside of closures stands behind every superinitializer. The same
holds of all uses of the instance just if it holds of the calls of methods of the superclass and of
the references in closures. -/
theorem instance_used_behind_superinitializer {cat : Catalogue} {options : Options}
    {session session' : Session} {c : Class} {m : Member} {tokens : List Token} {record : Record}
    (hc : cat.class? c.id = some c) (hi : InitializesSuper c m)
    (h : compile cat options session c m tokens = (.ok record, session')) :
    ∃ o, IsOnlyOutline (AnsweredIn cat options session c m tokens) o record.code
      ∧ (∀ l ∈ Outline.survey o 0, l.op = .selfReference → l.inClosure = false →
        l.Behind (Outline.survey o 0))
      ∧ (UsesFinishedInstance record.code ↔ CallsFinishedInstance o) := by
  cases hm : m.isNative with
  | true =>
    have ho := isOutline_native hm h (AnsweredIn cat options session c m tokens)
    exact ⟨[], ho.isOnly h, fun _ hl ↦ (nomatch hl),
      usesFinishedInstance_iff ho fun _ hl ↦ (nomatch hl)⟩
  | false =>
    obtain ⟨o, c₀, c₁, he⟩ := compile_emitted hm h
    have hself := behind_of_ordered (he.emits.walk.ordered ((initializesSuper_iff hc).mpr hi))
      (Outline.pairwise_survey o 0)
    exact ⟨o, he.isOutline.isOnly h, hself, usesFinishedInstance_iff he.isOutline hself⟩

/-- A body that initializes the superclass and then refers to the instance, `🐐 🆕 🐕 🍉`. -/
def Sample.selfBehindSuper : List Token :=
  [ask .superInitializer, word (.identifier initializer.symbol), ask .selfReference,
    ask .blockClose]

/-- An initializer that refers to the instance behind the superinitializer is accepted. -/
theorem instance_used_behind_superinitializer_sample :
    ∃ record session' o, compile Sample.catalogue {} .start Sample.childClass
        Sample.childInitializer Sample.selfBehindSuper = (.ok record, session')
      ∧ IsOnlyOutline (AnsweredIn Sample.catalogue {} .start Sample.childClass
        Sample.childInitializer Sample.selfBehindSuper) o record.code
      ∧ (∀ l ∈ Outline.survey o 0, l.op = .selfReference → l.inClosure = false →
        l.Behind (Outline.survey o 0))
      ∧ (UsesFinishedInstance record.code ↔ CallsFinishedInstance o) := by
  have hcode : listing? Sample.catalogue {} .start Sample.childClass Sample.childInitializer
      Sample.selfBehindSuper = some (Outline.entries
        [.plain .superInitializer [0, 0] [], .plain .selfReference [] []]) := by
    decide +kernel
  obtain ⟨record, session', h, -⟩ := exists_record hcode
  obtain ⟨o, ho, huses⟩ := instance_used_behind_superinitializer (by decide +kernel)
    ⟨by decide +kernel, by decide +kernel⟩ h
  exact ⟨record, session', o, h, ho, huses⟩

/-- A body is accepted for an initializer of a subclass whose code uses the instance before the
superclass was initialized. -/
def UsesUnfinishedInstance (cat : Catalogue) (options : Options) (session : Session) (c : Class)
    (m : Member) (tokens : List Token) : Prop :=
  cat.class? c.id = some c ∧ InitializesSuper c m
    ∧ ∃ record session', compile cat options session c m tokens = (.ok record, session')
      ∧ ¬ UsesFinishedInstance record.code

/-- A body of the initializer of 🦁 is known to use the instance too early once its code is. -/
theorem Sample.usesUnfinishedInstance {tokens : List Token} {listing : List Entry}
    (hcode : listing? catalogue {} .start childClass childInitializer tokens = some listing)
    (hmarks : ∃ p ∈ marksFrom 0 listing, (p.2 = .selfReference ∨ p.2 = .superMethodCall)
      ∧ ∃ p' ∈ marksFrom 0 listing, p'.2 = .superInitializer ∧ p.1 ≤ p'.1) :
    UsesUnfinishedInstance catalogue {} .start childClass childInitializer tokens := by
  obtain ⟨record, session', h, rfl⟩ := exists_record hcode
  obtain ⟨p, hp, hop, p', hp', hs, hle⟩ := hmarks
  refine ⟨by decide +kernel, ⟨by decide +kernel, by decide +kernel⟩, record, session', h, ?_⟩
  intro huses
  rw [UsesFinishedInstance, Chunk.marks_eq] at huses
  exact Nat.not_lt.mpr hle (huses p hp hop p' hp' hs)

/-- A body that calls a method of the superclass and then initializes the superclass,
`🐿 🐾 🐐 🆕 🍉`. -/
def Sample.superMethodFirst : List Token :=
  [ask .superMethod, word (.identifier method.symbol), ask .superInitializer,
    word (.identifier initializer.symbol), ask .blockClose]

/-- **Calls of methods of the superclass are not checked.** An initializer may call a method of the
superclass on an instance that the superclass has not initialized. -/
theorem superclass_method_before_superinitializer :
    UsesUnfinishedInstance Sample.catalogue {} .start Sample.childClass Sample.childInitializer
      Sample.superMethodFirst := by
  have hcode : listing? Sample.catalogue {} .start Sample.childClass Sample.childInitializer
      Sample.superMethodFirst = some (Outline.entries
        [.plain .superMethodCall [0, 0] [], .plain .superInitializer [0, 0] []]) := by
    decide +kernel
  exact Sample.usesUnfinishedInstance hcode (by decide)

/-- A body with a closure that refers to the instance in front of the superinitializer,
`🍇 🐕 🍉 🐐 🆕 🍉`. -/
def Sample.selfInClosureFirst : List Token :=
  [ask .blockOpen, ask .selfReference, ask .blockClose, ask .superInitializer,
    word (.identifier initializer.symbol), ask .blockClose]

/-- **References in closures are not checked.** An initializer may refer to the instance in a
closure in front of the superinitializer. -/
theorem closure_before_superinitializer :
    UsesUnfinishedInstance Sample.catalogue {} .start Sample.childClass Sample.childInitializer
      Sample.selfInClosureFirst := by
  have hcode : listing? Sample.catalogue {} .start Sample.childClass Sample.childInitializer
      Sample.selfInClosureFirst = some (Outline.entries
        [.closure 0 [.plain .selfReference [] []] 0 true 0,
          .plain .superInitializer [0, 0] []]) := by
    decide +kernel
  exact Sample.usesUnfinishedInstance hcode (by decide)

end Pictograph
