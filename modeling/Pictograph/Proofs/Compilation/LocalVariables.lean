import Pictograph.Proofs.Analysis.Coverage
import Pictograph.Proofs.Compilation.Emitted

/-!
# Local variables have a value before they are read

An accepted body is executed in frames, its own and those of its closures. Wherever a local variable
is read in a run of a frame, it is optional, or its slot is an argument or was captured, or the run
has bound the slot before. There are two ways around this. The condition of a later branch counts as
executed once its chain is behind, also if an earlier branch was taken. And an assignment looks up
its name again behind the value, so it counts for a variable of that name that the value declares.

## Main results

* `locals_bound_before_read`: what was there before a variable is read.
* `read_behind_skipped_condition`, `read_behind_stray_assignment`: bodies that read a variable
  without a value in these two ways.
-/

namespace Pictograph

/-- One variable is used at an offset: the expression that has its code there resolves its name to
the variable. -/
def ReadsOnly (answered : Query → State → Prop) (offset : Nat) (v : Variable) : Prop :=
  ∀ st u, ReadsAt answered offset st u ↔ st = .frame ∧ u = v

/-- In every run of a frame, where a local variable is read, the variable is optional, or its slot
is an argument or was captured, or the run has bound the slot before, unless a condition that was
skipped binds it or an assignment strayed to it. -/
def BindsBeforeReading (answered : Query → State → Prop) (f : CodeFrame) : Prop :=
  ∀ τ, Outline.Runs f.code f.offset τ →
    ∀ before i rest, τ = before ++ .done i :: rest → i.ReadsLocal →
      ∃ v, ReadsOnly answered i.offset v ∧ i.words = [UInt32.ofNat v.slot]
        ∧ (v.type.isOptional ∨ v.slot < f.given ∨ BoundIn before ⟨.frame, v.slot⟩
          ∨ PassedIn before ⟨.frame, v.slot⟩
          ∨ StrayedIn (.ofAnalysis answered) before ⟨.frame, v.slot⟩)

/-- In an accepted body the variable that is used at an offset is the only one. -/
theorem ReadsAt.readsOnly {cat : Catalogue} {options : Options} {session session' : Session}
    {c : Class} {m : Member} {tokens : List Token} {record : Record} {offset : Nat} {v : Variable}
    (hm : m.isNative = false)
    (hcompile : compile cat options session c m tokens = (.ok record, session'))
    (h : ReadsAt (AnsweredIn cat options session c m tokens) offset .frame v) :
    ReadsOnly (AnsweredIn cat options session c m tokens) offset v := by
  obtain ⟨fields, summary, s, hanswered, hrun⟩ := exists_run_of_compile hm hcompile
  rw [hanswered] at h ⊢
  refine fun st u ↦ ⟨fun hu ↦ ?_, fun ⟨hst, hu⟩ ↦ hst ▸ hu ▸ h⟩
  exact hu.unique (.body (Analysis.goesOnward_expression tokens.length) _ _ _) hrun h

/-- A body that gives a variable a value and reads it, `🍦 x 1 x 🍉`. -/
def Sample.frozenVariable : List Token :=
  [ask .declareFrozen, word (.reference "x"), word (.integer 1), word (.reference "x"),
    ask .blockClose]

/-- **Local variables have a value before they are read**, in every run of every frame of an
accepted body, apart from the two exceptions. -/
theorem locals_bound_before_read {cat : Catalogue} {options : Options}
    {session session' : Session} {c : Class} {m : Member} {tokens : List Token} {record : Record}
    (h : compile cat options session c m tokens = (.ok record, session')) :
    ∃ o, IsOnlyOutline (AnsweredIn cat options session c m tokens) o record.code
      ∧ ∀ f ∈ Outline.frames o m.arguments.length,
        BindsBeforeReading (AnsweredIn cat options session c m tokens) f := by
  cases hm : m.isNative with
  | true =>
    refine ⟨[], (isOutline_native hm h _).isOnly h, fun f hf τ hτ before i rest he ↦ ?_⟩
    obtain rfl := List.mem_singleton.mp hf
    obtain rfl : τ = [] := hτ
    cases before <;> cases he
  | false =>
    obtain ⟨o, c₀, c₁, he⟩ := compile_emitted hm h
    refine ⟨o, he.isOutline.isOnly h, fun f hf τ hτ before i rest hi hr ↦ ?_⟩
    have hsafe : SafeFrame (.ofAnalysis (AnsweredIn cat options session c m tokens)) f := by
      rcases List.mem_cons.mp hf with rfl | hf
      · exact he.emits.safeFrame he.isStart he.distinct
      · exact he.emits.safe_closures he.distinct f hf
    obtain ⟨v, hv, hw, hc⟩ := hsafe τ hτ before i rest hi hr
    exact ⟨v, hv.readsOnly hm h, hw,
      hc.imp_right fun hc ↦ (cases_of_after hc).imp_left fun h ↦ h rfl⟩

/-- A body that gives a variable a value and reads it is accepted, and binds the variable before. -/
theorem local_bound_before_read_sample :
    ∃ record session', compile Sample.catalogue {} .start Sample.parentClass Sample.method
        Sample.frozenVariable = (.ok record, session')
      ∧ ∃ o, IsOnlyOutline (AnsweredIn Sample.catalogue {} .start Sample.parentClass Sample.method
          Sample.frozenVariable) o record.code
        ∧ ∀ f ∈ Outline.frames o Sample.method.arguments.length,
          BindsBeforeReading (AnsweredIn Sample.catalogue {} .start Sample.parentClass Sample.method
            Sample.frozenVariable) f := by
  have hcode : listing? Sample.catalogue {} .start Sample.parentClass Sample.method
      Sample.frozenVariable = some (Outline.entries
        [.plain (.access .frame .store) [0] [.plain .integer [1] []],
          .plain (.access .frame .load) [0] []]) := by
    decide +kernel
  obtain ⟨record, session', h, -⟩ := exists_record hcode
  exact ⟨record, session', h, locals_bound_before_read h⟩

/-! ## Reads without a value -/

/-- The body declares a variable, in the next slot of a frame and without a value. -/
def DeclaresUnset (answered : Query → State → Prop) (v : Variable) : Prop :=
  v.isReady = false ∧ ∃ q s', answered q s' ∧ q.token.asksFor .declare
    ∧ v.slot = q.state.frame.slotCount
    ∧ s'.environment.current.declared = q.state.environment.current.declared ++ [v]

/-- A body is accepted though in a run of its code a variable is read before its slot was bound. The
body declares the variable without a value, and the type of the variable is not optional. -/
def ReadsUnbound (cat : Catalogue) (options : Options) (session : Session) (c : Class) (m : Member)
    (tokens : List Token) : Prop :=
  ∃ record session' o, compile cat options session c m tokens = (.ok record, session')
    ∧ IsOnlyOutline (AnsweredIn cat options session c m tokens) o record.code
    ∧ ∃ before i rest v u, Outline.Runs o 0 (before ++ .done i :: rest) ∧ i.ReadsLocal
      ∧ ReadsOnly (AnsweredIn cat options session c m tokens) i.offset v
      ∧ i.words = [UInt32.ofNat v.slot]
      ∧ DeclaresUnset (AnsweredIn cat options session c m tokens) u
      ∧ v.name = u.name ∧ v.slot = u.slot ∧ v.type = u.type ∧ v.type.isOptional = false
      ∧ m.arguments.length ≤ v.slot ∧ ¬ BoundIn before ⟨.frame, v.slot⟩

/-- Executing an instruction without operands. -/
theorem runs_leaf {op : Opcode} {words : List UInt32} {k : Nat} :
    Outline.Runs [.plain op words []] k [.done ⟨k, op, words⟩] :=
  Outline.runs_singleton.mpr (Item.runs_plain.mpr ⟨[], rfl, rfl⟩)

namespace Sample

/-- A body in which only the condition of a later branch gives `x` a value,
`🍰 x 🚂 🍊 👍 🍇 🍉 🍋 ☁ 🍮 x 1 🍇 🍉 x 🍉`. -/
def lateCondition : List Token :=
  [ask .declare, word (.reference "x"), word (.identifier Vocabulary.integer),
    ask .ifBranch, word (.boolean true), ask .blockOpen, ask .blockClose,
    ask .elseIfBranch, ask .isNothingness, ask .assign, word (.reference "x"), word (.integer 1),
    ask .blockOpen, ask .blockClose, word (.reference "x"), ask .blockClose]

/-- The later branch of `lateCondition`. -/
def lateBranch : Outline :=
  [.elseIf [.plain .isNothingness [] [.plain (.access .frame .store) [0]
    [.plain .integer [1] []]]] [] []]

/-- The code of `lateCondition`. -/
def lateConditionOutline : Outline :=
  [.ifChain [.plain (.boolean true) [] []] [] lateBranch, .plain (.access .frame .load) [0] []]

/-- A body in which the value assigned to a field declares a variable of the same name,
`🍮 f ☁ 🍰 f 👌 f 🍉`. -/
def strayAssignment : List Token :=
  [ask .assign, word (.reference "f"), ask .isNothingness, ask .declare, word (.reference "f"),
    word (.identifier Vocabulary.boolean), word (.reference "f"), ask .blockClose]

/-- The code of `strayAssignment`. -/
def strayAssignmentOutline : Outline :=
  [.plain (.access .object .store) [0] [.plain .isNothingness [] []],
    .plain (.access .frame .load) [0] []]

/-- A body is known to read a variable without a value once its code, a run and the variable are. -/
theorem readsUnbound {tokens : List Token} {o : Outline} {before : List Event} {offset : Nat}
    {u : Variable} (hcode : listing? catalogue {} .start parentClass method tokens
      = some (Outline.entries o))
    (hfollows : ∀ record session',
      compile catalogue {} .start parentClass method tokens = (.ok record, session') →
      Outline.Follows (.ofAnalysis (AnsweredIn catalogue {} .start parentClass method tokens)) o 0)
    (hruns : Outline.Runs o 0 (before ++ [.done ⟨offset, .access .frame .load, [0]⟩]))
    (hread : refuses catalogue {} .start parentClass method tokens fun q _ ↦
      q.state.offset == offset && q.token.lexeme == .reference u.name
        && (q.state.environment.resolve? u.name).any fun (st, v) ↦
          st = .frame ∧ v.name = u.name ∧ v.slot = u.slot ∧ v.type = u.type)
    (hdeclared : refuses catalogue {} .start parentClass method tokens fun q s' ↦
      q.token.asksFor .declare && (q.state.frame.slotCount == u.slot
        && s'.environment.current.declared == q.state.environment.current.declared ++ [u]))
    (hu : u.slot = 0 ∧ u.isReady = false ∧ u.type.isOptional = false)
    (hbefore : ¬ BoundIn before ⟨.frame, 0⟩) :
    ReadsUnbound catalogue {} .start parentClass method tokens := by
  obtain ⟨record, session', h, hl⟩ := exists_record hcode
  obtain ⟨hslot, hready, htype⟩ := hu
  obtain ⟨q, s', hq, hp⟩ := (refuses_iff h).mp hread
  obtain ⟨hp, hv⟩ := Bool.and_eq_true_iff.mp hp
  obtain ⟨hoffset, hlexeme⟩ := Bool.and_eq_true_iff.mp hp
  obtain ⟨⟨st, v⟩, hresolve, hv⟩ := (Option.any_eq_true ..).mp hv
  obtain ⟨rfl, hname, hslot', htype'⟩ := of_decide_eq_true hv
  obtain ⟨q', s'', hq', hp⟩ := (refuses_iff h).mp hdeclared
  obtain ⟨hasks, hp⟩ := Bool.and_eq_true_iff.mp hp
  obtain ⟨hcount, hdeclared⟩ := Bool.and_eq_true_iff.mp hp
  have hreads : ReadsAt (AnsweredIn catalogue {} .start parentClass method tokens) offset
      .frame v := ⟨q, s', u.name, hq, beq_iff_eq.mp hoffset, .inl (beq_iff_eq.mp hlexeme), hresolve⟩
  refine ⟨record, session', o, h, (IsOutline.mk hl.symm (hfollows record session' h)).isOnly h,
    before, _, [], v, u, hruns, ⟨.load, nofun, rfl⟩, hreads.readsOnly (by decide +kernel) h, ?_,
    ⟨hready, q', s'', hq', hasks, (beq_iff_eq.mp hcount).symm, beq_iff_eq.mp hdeclared⟩, hname,
    hslot', htype', htype'.symm ▸ htype, ?_, ?_⟩
  · rw [hslot', hslot]
    rfl
  · rw [hslot', hslot]
    exact Nat.zero_le _
  · rwa [hslot', hslot]

end Sample

/-- **A skipped condition counts.** A variable may be read that only the condition of a branch gives
a value to, behind a run that took an earlier branch. -/
theorem read_behind_skipped_condition :
    ReadsUnbound Sample.catalogue {} .start Sample.parentClass Sample.method
      Sample.lateCondition := by
  have hruns : Outline.Runs Sample.lateConditionOutline 0
      ([.done ⟨2, .boolean true, []⟩, .passed (Outline.conditions Sample.lateBranch 4)]
        ++ [.done ⟨11, .access .frame .load, [0]⟩]) :=
    ⟨_, _, ⟨_, [], runs_leaf, .inl ⟨rfl, rfl⟩⟩, runs_leaf, rfl⟩
  refine Sample.readsUnbound (u := { name := "x", type := .integer, slot := 0, span := .nowhere })
    (by decide +kernel) (fun record session' h ↦ ?_) hruns (by decide +kernel) (by decide +kernel)
    ⟨rfl, rfl, rfl⟩ ?_
  · simp only [Sample.lateConditionOutline, Sample.lateBranch, Outline.Follows, Item.Follows,
      Outline.Decides, Outline.Continues, true_and, and_true]
    and_intros <;> first | decide | exact hasCode_of_refuses h (by decide +kernel)
  · rintro ⟨i, hi, -, hb⟩
    simp only [List.mem_cons, Event.done.injEq, reduceCtorEq, List.not_mem_nil, or_self,
      or_false] at hi
    simp [hi] at hb

/-- **An assignment counts for a variable that its value declares.** -/
theorem read_behind_stray_assignment :
    ReadsUnbound Sample.catalogue {} .start Sample.parentClass Sample.method
      Sample.strayAssignment := by
  have hruns : Outline.Runs Sample.strayAssignmentOutline 0
      ([.done ⟨2, .isNothingness, []⟩, .done ⟨0, .access .object .store, [0]⟩]
        ++ [.done ⟨3, .access .frame .load, [0]⟩]) :=
    ⟨_, _, Item.runs_plain.mpr ⟨_, runs_leaf, rfl⟩, runs_leaf, rfl⟩
  refine Sample.readsUnbound (u := { name := "f", type := .boolean, slot := 0, span := .nowhere })
    (by decide +kernel) (fun record session' h ↦ ?_) hruns (by decide +kernel) (by decide +kernel)
    ⟨rfl, rfl, rfl⟩ ?_
  · simp only [Sample.strayAssignmentOutline, Outline.Follows, Item.Follows, true_and, and_true]
    and_intros <;> first | decide | exact hasCode_of_refuses h (by decide +kernel)
  · rintro ⟨i, hi, -, hb⟩
    simp only [List.mem_cons, Event.done.injEq, List.not_mem_nil, or_false] at hi
    rcases hi with rfl | rfl <;> simp at hb

end Pictograph
