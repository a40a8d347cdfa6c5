import Pictograph.Catalogue.Standard
import Pictograph.Compilation.Procedure
import Pictograph.Proofs.Analysis.Apart

/-!
# The code of a procedure

The code of an accepted body has an outline that was emitted by the rules, from a context with the
arguments and the fields to one in which the body may end.

## Main definitions

* `ReachedIn`: an expression is asked for when a procedure is compiled.
* `AnsweredIn`: an expression is reached and answered when a procedure is compiled.
* `IsOutline`: an outline is that of some code, and follows the places of expressions.

## Main results

* `compile_emitted`: the code of an accepted body is emitted by the rules.
* `IsOutline.isOnly`: the code of an accepted procedure has one outline only.
-/

namespace Pictograph

/-! ## Fields -/

/-- A field as a variable. Inside an initializer it has no value at first, unless it is optional. -/
def Field.variable (isInitializer : Bool) (f : Field) (slot : Nat) : Variable :=
  let v : Variable := { name := f.name, type := f.type, slot, span := .nowhere }
  if !isInitializer || f.type.isOptional then v.ready else v

theorem Field.variable_slot (isInitializer : Bool) (f : Field) (slot : Nat) :
    (f.variable isInitializer slot).slot = slot := by
  unfold Field.variable
  dsimp only
  split <;> rfl

theorem Field.variable_type (isInitializer : Bool) (f : Field) (slot : Nat) :
    (f.variable isInitializer slot).type = f.type := by
  unfold Field.variable
  dsimp only
  split <;> rfl

theorem Field.variable_name (isInitializer : Bool) (f : Field) (slot : Nat) :
    (f.variable isInitializer slot).name = f.name := by
  unfold Field.variable
  dsimp only
  split <;> rfl

theorem Field.variable_span (isInitializer : Bool) (f : Field) (slot : Nat) :
    (f.variable isInitializer slot).span = .nowhere := by
  unfold Field.variable
  dsimp only
  split <;> rfl

theorem Scope.eq_of_declare {s s' : Scope} {v : Variable} (h : s.declare v = .ok s') :
    s'.declared = s.declared ++ [v] := by
  unfold Scope.declare at h
  split at h
  · cases h
  · cases h
    rfl

/-- A declaration is refused at the place of the variable. -/
theorem Scope.declare_error {s : Scope} {v : Variable} {fault : Fault}
    (h : s.declare v = .error fault) : fault = (Cause.redeclaration v.name).at v.span := by
  unfold Scope.declare at h
  split at h
  · cases h
    rfl
  · cases h

/-- Fields are in consecutive slots. -/
theorem declareFields_ok {isInitializer : Bool} {first : Nat} {s s' : Scope} {fs : List Field}
    (h : declareFields isInitializer first s fs = .ok s') :
    s'.declared = s.declared
      ++ (fs.zipIdx first).map fun (f, slot) ↦ f.variable isInitializer slot := by
  induction fs generalizing first s with
  | nil =>
    cases h
    exact (List.append_nil _).symm
  | cons f fs ih =>
    unfold declareFields at h
    split at h
    · cases h
    · change (s.declare (f.variable isInitializer first)
        >>= fun s ↦ declareFields isInitializer (first + 1) s fs) = _ at h
      cases hd : s.declare (f.variable isInitializer first) with
      | error fault =>
        rw [hd] at h
        cases h
      | ok s₁ =>
        rw [hd] at h
        rw [ih h, Scope.eq_of_declare hd, List.append_assoc]
        rfl

theorem declareFields_error {isInitializer : Bool} {first : Nat} {s : Scope} {fs : List Field}
    {fault : Fault} (h : declareFields isInitializer first s fs = .error fault) :
    ∃ cause : Cause, fault = cause.at .nowhere := by
  induction fs generalizing first s with
  | nil => cases h
  | cons f fs ih =>
    unfold declareFields at h
    split at h
    · cases h
      exact ⟨_, rfl⟩
    · change (s.declare (f.variable isInitializer first)
        >>= fun s ↦ declareFields isInitializer (first + 1) s fs) = _ at h
      cases hd : s.declare (f.variable isInitializer first) with
      | error e =>
        rw [hd] at h
        cases h
        rw [Scope.declare_error hd, f.variable_span]
        exact ⟨_, rfl⟩
      | ok s₁ =>
        rw [hd] at h
        exact ih h

/-- The fields that a class declares, as variables. -/
def Catalogue.fieldVariables (cat : Catalogue) (c : Class) (isInitializer : Bool) :
    List Variable :=
  (c.fields.zipIdx (cat.inheritedFieldCount c)).map fun (f, slot) ↦ f.variable isInitializer slot

theorem Catalogue.map_slot_fieldVariables (cat : Catalogue) (c : Class) (isInitializer : Bool) :
    (cat.fieldVariables c isInitializer).map (·.slot)
      = List.range' (cat.inheritedFieldCount c) c.fields.length := by
  rw [fieldVariables, List.map_map, ← List.zipIdx_map_snd]
  exact List.map_congr_left fun p _ ↦ p.1.variable_slot isInitializer p.2

theorem Catalogue.nodup_fieldVariables (cat : Catalogue) (c : Class) (isInitializer : Bool) :
    ((cat.fieldVariables c isInitializer).map (·.slot)).Nodup := by
  rw [cat.map_slot_fieldVariables]
  exact List.nodup_range'

theorem Catalogue.fieldScope_ok {cat : Catalogue} {c : Class} {isInitializer : Bool} {s : Scope}
    (h : cat.fieldScope c isInitializer = .ok s) :
    s.declared = cat.fieldVariables c isInitializer :=
  (declareFields_ok h).trans (List.nil_append _)

/-- The body of a class method has no fields in reach, any other body has those of the class. -/
theorem Catalogue.fieldsFor_ok {cat : Catalogue} {c : Class} {m : Member} {fields : Option Scope}
    (h : cat.fieldsFor c m = .ok fields) :
    match m.kind with
    | .classMethod => fields = none
    | .method => fields = some ⟨cat.fieldVariables c false⟩
    | .initializer => fields = some ⟨cat.fieldVariables c true⟩ := by
  have key {isInitializer : Bool}
      (h : (some <$> cat.fieldScope c isInitializer : Except Fault (Option Scope)) = .ok fields) :
      fields = some ⟨cat.fieldVariables c isInitializer⟩ := by
    cases hs : cat.fieldScope c isInitializer with
    | error fault =>
      rw [hs] at h
      cases h
    | ok s =>
      rw [hs] at h
      cases h
      rw [← fieldScope_ok hs]
  unfold fieldsFor at h
  cases hk : m.kind with
  | classMethod =>
    rw [hk] at h
    cases h
    rfl
  | method =>
    rw [hk] at h
    exact key h
  | initializer =>
    rw [hk] at h
    exact key h

/-- What is wrong with the fields of a class is reported nowhere. -/
theorem Catalogue.fieldsFor_error {cat : Catalogue} {c : Class} {m : Member} {fault : Fault}
    (h : cat.fieldsFor c m = .error fault) : ∃ cause : Cause, fault = cause.at .nowhere := by
  have key {isInitializer : Bool}
      (h : (some <$> cat.fieldScope c isInitializer : Except Fault (Option Scope))
        = .error fault) : ∃ cause : Cause, fault = cause.at .nowhere := by
    cases hs : cat.fieldScope c isInitializer with
    | error e =>
      rw [hs] at h
      cases h
      exact declareFields_error hs
    | ok s =>
      rw [hs] at h
      cases h
  unfold fieldsFor at h
  cases hk : m.kind with
  | classMethod =>
    rw [hk] at h
    cases h
  | method | initializer =>
    rw [hk] at h
    exact key h

theorem Catalogue.nodup_fieldsFor {cat : Catalogue} {c : Class} {m : Member}
    {fields : Option Scope} (h : cat.fieldsFor c m = .ok fields) :
    ∀ s, fields = some s → (s.declared.map (·.slot)).Nodup := by
  have h := fieldsFor_ok h
  rintro s rfl
  cases hk : m.kind with
  | classMethod =>
    rw [hk] at h
    cases h
  | method | initializer =>
    rw [hk] at h
    cases h
    exact cat.nodup_fieldVariables c _

/-! ## Code -/

/-- The state in front of a body. -/
def State.start (fields : Option Scope) (session : Session) (tokens : List Token) : State where
  cursor := .start tokens
  assembler := .start
  session := session
  environment := .start fields
  frame := {}

/-- The compilation of a procedure gets to a query, and `n` levels of nesting are left there. -/
def ReachedIn (cat : Catalogue) (options : Options) (session : Session) (c : Class) (m : Member)
    (tokens : List Token) (n : Nat) (q : Query) : Prop :=
  m.isNative = false ∧ ∃ fields, cat.fieldsFor c m = .ok fields
    ∧ Reaches (fun rec ↦ Analysis.body (.ofMember cat options c m) rec m.arguments [] 0)
      tokens.length (.start fields session tokens) n q

/-- What is asked inside an expression of a body is an expression of the body. -/
theorem ReachedIn.nested {cat : Catalogue} {options : Options} {session : Session} {c : Class}
    {m : Member} {tokens : List Token} {n : Nat} {q q' : Query}
    (h : ReachedIn cat options session c m tokens (n + 1) q)
    (hq' : Asks (Analysis.expression n)
      (fun r ↦ Analysis.expressionStep r q.setting q.token q.hint) q.state q') :
    ReachedIn cat options session c m tokens n q' := by
  obtain ⟨hnative, fields, hfields, hq⟩ := h
  exact ⟨hnative, fields, hfields, hq.nested hq'⟩

/-- The compilation of a procedure gets to an expression, and it is answered in the state `s'`. -/
def AnsweredIn (cat : Catalogue) (options : Options) (session : Session) (c : Class) (m : Member)
    (tokens : List Token) (q : Query) (s' : State) : Prop :=
  ∃ n t, ReachedIn cat options session c m tokens n q
    ∧ (Analysis.expression n).answer q = .ok t s'

/-- What is answered when a procedure is compiled is what the analysis of its body gets to. -/
theorem answeredIn_eq {cat : Catalogue} {options : Options} {session : Session} {c : Class}
    {m : Member} {tokens : List Token} {fields : Option Scope} (hm : m.isNative = false)
    (hfields : cat.fieldsFor c m = .ok fields) :
    AnsweredIn cat options session c m tokens
      = Answered (fun rec ↦ Analysis.body (.ofMember cat options c m) rec m.arguments [] 0)
        tokens.length (.start fields session tokens) := by
  funext q s'
  refine propext ⟨?_, fun ⟨n, t, hq, hanswer⟩ ↦ ⟨n, t, ⟨hm, fields, hfields, hq⟩, hanswer⟩⟩
  rintro ⟨n, t, ⟨-, fields', hfields', hq⟩, hanswer⟩
  cases hfields.symm.trans hfields'
  exact ⟨n, t, hq, hanswer⟩

/-- An outline is that of some code, given which expressions were answered: it has the same words,
and it follows the places of the expressions. -/
structure IsOutline (answered : Query → State → Prop) (o : Outline) (code : Chunk) : Prop where
  listing : Outline.entries o = code.listing
  follows : Outline.Follows (.ofAnalysis answered) o 0

/-- An outline is the only one of some code, given which expressions were answered. -/
def IsOnlyOutline (answered : Query → State → Prop) (o : Outline) (code : Chunk) : Prop :=
  ∀ o', IsOutline answered o' code ↔ o' = o

theorem IsOnlyOutline.isOutline {answered : Query → State → Prop} {o : Outline} {code : Chunk}
    (h : IsOnlyOutline answered o code) : IsOutline answered o code := (h o).mpr rfl

/-- The opcodes in the code of an outline are those that a survey finds. -/
theorem marks_of_isOutline {answered : Query → State → Prop} {o : Outline} {code : Chunk}
    (h : IsOutline answered o code) : code.marks = surveyMarks (Outline.survey o 0) := by
  rw [Chunk.marks_eq, ← h.listing, Outline.marksFrom_entries]

theorem mem_marks_iff {answered : Query → State → Prop} {o : Outline} {code : Chunk}
    (h : IsOutline answered o code) {p : Nat × Opcode} :
    p ∈ code.marks ↔ ∃ l ∈ Outline.survey o 0, (l.offset, l.op) = p := by
  rw [marks_of_isOutline h]
  exact List.mem_map

/-- What is known about the record of an accepted body. -/
structure Emitted (cat : Catalogue) (options : Options) (session : Session) (c : Class)
    (m : Member) (tokens : List Token) (record : Record) (o : Outline) (c₀ c₁ : Context) :
    Prop where
  isOutline : IsOutline (AnsweredIn cat options session c m tokens) o record.code
  emits : Emits (.ofAnalysis (AnsweredIn cat options session c m tokens))
    (.ofMember cat options c m) (.code o) 0 c₀ c₁
  isStart : c₀.IsStart m.arguments.length
  flowDepth : c₀.flowDepth = 0
  calledSuper : c₀.calledSuper = false
  hasReturned : c₀.hasReturned = false
  fields : cat.fieldsFor c m = .ok c₀.environment.fields
  accepts : (Setting.ofMember cat options c m).Accepts c₁
  slotCount : record.header.slotCount = c₁.slotCount
  laid : Outline.Laid (GapAt (AnsweredIn cat options session c m tokens))
    (CalleeAt (AnsweredIn cat options session c m tokens)) o 0
  returnsProperly : Outline.ReturnsProperly (ReturnsAt (AnsweredIn cat options session c m tokens))
    o 0
  frozen : ∀ v, c₀.environment.Holds .frame v → v.isFrozen
  below : c₀.Below (Setting.ofMember cat options c m).slotBound
  argumentCount : m.arguments.length ≤ (Setting.ofMember cat options c m).slotBound

theorem Emitted.distinct {cat : Catalogue} {options : Options} {session : Session} {c : Class}
    {m : Member} {tokens : List Token} {record : Record} {o : Outline} {c₀ c₁ : Context}
    (h : Emitted cat options session c m tokens record o c₀ c₁) : c₀.Distinct :=
  h.isStart.distinct (Catalogue.nodup_fieldsFor h.fields)

/-- An analysis makes a record if it read all tokens and filled all reserved words. -/
theorem finishRecord_ok_iff {m : Member} {summary : Summary} {s : State} {record : Record} :
    finishRecord m summary s = .ok record ↔ s.cursor.after = [] ∧ s.assembler.holes = []
      ∧ record = ⟨m.header summary.slotCount, s.assembler.chunk⟩ := by
  rw [finishRecord, Cursor.peek]
  cases s.cursor.after with
  | cons token rest => exact ⟨fun h ↦ (by cases h), fun h ↦ by cases h.1⟩
  | nil =>
    rw [Assembler.finish?]
    cases s.assembler.holes with
    | cons hole holes => exact ⟨fun h ↦ (by cases h), fun h ↦ by cases h.2.1⟩
    | nil =>
      refine ⟨fun h ↦ ?_, fun h ↦ congrArg Except.ok h.2.2.symm⟩
      cases h
      exact ⟨rfl, rfl, rfl⟩

/-- An accepted body is one whose analysis succeeds and comes to its end. -/
theorem compile_ok_iff {cat : Catalogue} {options : Options} {session session' : Session}
    {c : Class} {m : Member} {tokens : List Token} {record : Record} (hm : m.isNative = false) :
    compile cat options session c m tokens = (.ok record, session')
      ↔ ∃ fields summary s, cat.fieldsFor c m = .ok fields
        ∧ analyse (.ofMember cat options c m) m.arguments fields session tokens = .ok summary s
        ∧ finishRecord m summary s = .ok record ∧ s.session = session' := by
  rw [compile, hm, if_neg Bool.false_ne_true]
  cases cat.fieldsFor c m with
  | error fault => exact ⟨fun h ↦ (nomatch h), fun ⟨_, _, _, h, _⟩ ↦ nomatch h⟩
  | ok fields =>
    dsimp only
    cases ha : analyse (.ofMember cat options c m) m.arguments fields session tokens with
    | error fault s =>
      refine ⟨fun h ↦ (nomatch h), fun ⟨fields', summary, s, hfields, hbody, _⟩ ↦ ?_⟩
      cases hfields
      cases ha.symm.trans hbody
    | ok summary s =>
      refine ⟨fun h ↦ ?_, fun ⟨fields', summary', s', hfields, hbody, hfinish, hsession⟩ ↦ ?_⟩
      · obtain ⟨hfinish, hsession⟩ := Prod.mk.inj h
        exact ⟨fields, summary, s, rfl, ha, hfinish, hsession⟩
      · cases hfields
        cases ha.symm.trans hbody
        exact Prod.ext hfinish hsession

/-- An accepted body is one whose analysis succeeds. -/
theorem analyse_of_compile {cat : Catalogue} {options : Options} {session session' : Session}
    {c : Class} {m : Member} {tokens : List Token} {record : Record} (hm : m.isNative = false)
    (h : compile cat options session c m tokens = (.ok record, session')) :
    ∃ fields summary s, cat.fieldsFor c m = .ok fields
      ∧ analyse (.ofMember cat options c m) m.arguments fields session tokens = .ok summary s
      ∧ record.code = s.assembler.chunk ∧ record.header.slotCount = s.frame.slotCount := by
  obtain ⟨fields, summary, s, hfields, hbody, hfinish, -⟩ := (compile_ok_iff hm).mp h
  obtain ⟨-, -, rfl⟩ := finishRecord_ok_iff.mp hfinish
  exact ⟨fields, summary, s, hfields, hbody, rfl, Analysis.slotCount_of_body hbody⟩

/-- **The code of an accepted body is emitted by the rules.** -/
theorem compile_emitted {cat : Catalogue} {options : Options} {session session' : Session}
    {c : Class} {m : Member} {tokens : List Token} {record : Record} (hm : m.isNative = false)
    (h : compile cat options session c m tokens = (.ok record, session')) :
    ∃ o c₀ c₁, Emitted cat options session c m tokens record o c₀ c₁ := by
  obtain ⟨fields, summary, s, hfields, hbody, hcode, hcount⟩ := analyse_of_compile hm h
  obtain ⟨rec, hemitting⟩ : ∃ rec, Emitting
      (.ofAnalysis (AnsweredIn cat options session c m tokens)) rec
      (fun r ↦ Analysis.body (.ofMember cat options c m) r m.arguments [] 0)
      (.start fields session tokens) summary s := by
    rw [answeredIn_eq hm hfields]
    exact ⟨_, (Traverses.body (Analysis.goesOnward_expression tokens.length) _ _ _).emitting hbody
      fun q t s₁ hq hanswer ↦ (Reaches.asked hq).wrote hanswer⟩
  obtain ⟨o, c₀, he, hx, hl, -, hstart, hd, hb, hflag, hfields', haccepts, hbelow, hcount',
    hheld⟩ := Analysis.wrote_body rfl hemitting
  refine ⟨o, c₀, s.context, ⟨?_, hx.follows⟩, he, hstart .nil fun _ hv ↦ (nomatch hv), hd, hb,
    hflag, ?_, haccepts, hcount, hx.laid, hx.returnsProperly, fun v hv ↦ ?_, hbelow, hcount'⟩
  · rw [hcode]
    exact hl.symm
  · rw [hfields']
    exact hfields
  · rcases hheld v hv with ⟨-, hfrozen⟩ | ⟨u, hu, -⟩
    · exact hfrozen
    · cases hu

/-- A native procedure has no code. -/
theorem isOutline_native {cat : Catalogue} {options : Options} {session session' : Session}
    {c : Class} {m : Member} {tokens : List Token} {record : Record} (hm : m.isNative)
    (h : compile cat options session c m tokens = (.ok record, session'))
    (answered : Query → State → Prop) : IsOutline answered [] record.code := by
  unfold compile at h
  rw [hm, if_pos rfl] at h
  cases h
  exact ⟨rfl, trivial⟩

/-- The expressions that an accepted body has been compiled from are those that the run of its
analysis gets to. -/
theorem exists_run_of_compile {cat : Catalogue} {options : Options} {session session' : Session}
    {c : Class} {m : Member} {tokens : List Token} {record : Record} (hm : m.isNative = false)
    (h : compile cat options session c m tokens = (.ok record, session')) :
    ∃ fields summary s, AnsweredIn cat options session c m tokens
        = Answered (fun rec ↦ Analysis.body (.ofMember cat options c m) rec m.arguments [] 0)
          tokens.length (.start fields session tokens)
      ∧ Analysis.body (.ofMember cat options c m) (Analysis.expression tokens.length) m.arguments
        [] 0 (.start fields session tokens) = .ok summary s := by
  obtain ⟨fields, summary, s, hfields, hbody, -⟩ := analyse_of_compile hm h
  exact ⟨fields, summary, s, answeredIn_eq hm hfields, hbody⟩

/-- Nothing is answered in a native procedure. -/
theorem not_answeredIn_native {cat : Catalogue} {options : Options} {session : Session}
    {c : Class} {m : Member} {tokens : List Token} (hm : m.isNative) (q : Query) (s' : State) :
    ¬ AnsweredIn cat options session c m tokens q s' :=
  fun ⟨_, _, ⟨hm', _⟩, _⟩ ↦ absurd hm (ne_true_of_eq_false hm')

/-- The expressions of an accepted procedure are in places that their offsets determine. -/
theorem functional_of_compile {cat : Catalogue} {options : Options} {session session' : Session}
    {c : Class} {m : Member} {tokens : List Token} {record : Record}
    (h : compile cat options session c m tokens = (.ok record, session')) :
    (Places.ofAnalysis (AnsweredIn cat options session c m tokens)).Functional := by
  by_cases hm : m.isNative
  · exact ⟨fun _ _ ⟨q, s', hq, _⟩ ↦ absurd hq (not_answeredIn_native hm q s'),
      fun ⟨q, s', hq, _⟩ ↦ absurd hq (not_answeredIn_native hm q s')⟩
  · obtain ⟨fields, summary, s, hanswered, hrun⟩ :=
      exists_run_of_compile (eq_false_of_ne_true hm) h
    rw [hanswered]
    exact Places.functional_of_answered
      (.body (Analysis.goesOnward_expression tokens.length) _ _ _) hrun

/-- An expression of an accepted procedure that has code is the only one at its offset. -/
theorem AnsweredIn.eq_of_offset_eq {cat : Catalogue} {options : Options}
    {session session' : Session} {c : Class} {m : Member} {tokens : List Token} {record : Record}
    {q q' : Query} {s s' : State} (h : AnsweredIn cat options session c m tokens q s)
    (h' : AnsweredIn cat options session c m tokens q' s')
    (hcompile : compile cat options session c m tokens = (.ok record, session'))
    (hcode : q.state.offset < s.offset) (hcode' : q'.state.offset < s'.offset)
    (hoffset : q.state.offset = q'.state.offset) : q = q' ∧ s = s' := by
  by_cases hm : m.isNative
  · exact absurd h (not_answeredIn_native hm q s)
  · obtain ⟨fields, summary, ending, hanswered, hrun⟩ :=
      exists_run_of_compile (eq_false_of_ne_true hm) hcompile
    rw [hanswered] at h h'
    exact h.eq_of_offset_eq h' (.body (Analysis.goesOnward_expression tokens.length) _ _ _) hrun
      hcode hcode' hoffset

/-- An expression that asks for something else than a declaration has code. -/
theorem AnsweredIn.lt_offset {cat : Catalogue} {options : Options} {session : Session} {c : Class}
    {m : Member} {tokens : List Token} {q : Query} {s : State}
    (h : AnsweredIn cat options session c m tokens q s)
    (hdeclare : q.token.asksFor .declare = false) : q.state.offset < s.offset := by
  obtain ⟨n, t, ⟨-, fields, -, hq⟩, hanswer⟩ := h
  exact Answered.lt_offset ⟨n, t, hq, hanswer⟩ hdeclare

/-- The call at an offset of an accepted procedure passes on one number of arguments. -/
theorem calleeAt_unique {cat : Catalogue} {options : Options} {session session' : Session}
    {c : Class} {m : Member} {tokens : List Token} {record : Record} {offset count count' : Nat}
    (hcompile : compile cat options session c m tokens = (.ok record, session'))
    (h : CalleeAt (AnsweredIn cat options session c m tokens) offset count)
    (h' : CalleeAt (AnsweredIn cat options session c m tokens) offset count') : count = count' := by
  by_cases hm : m.isNative
  · obtain ⟨q, s', hq, -⟩ := h
    exact absurd hq (not_answeredIn_native hm q s')
  · obtain ⟨fields, summary, s, hanswered, hrun⟩ :=
      exists_run_of_compile (eq_false_of_ne_true hm) hcompile
    rw [hanswered] at h h'
    exact h.unique (.body (Analysis.goesOnward_expression tokens.length) _ _ _) hrun h'

/-- The closure at an offset of an accepted procedure has one return type. -/
theorem returnsAt_unique {cat : Catalogue} {options : Options} {session session' : Session}
    {c : Class} {m : Member} {tokens : List Token} {record : Record} {offset : Nat}
    {result result' : Ty}
    (hcompile : compile cat options session c m tokens = (.ok record, session'))
    (h : ReturnsAt (AnsweredIn cat options session c m tokens) offset result)
    (h' : ReturnsAt (AnsweredIn cat options session c m tokens) offset result') :
    result = result' := by
  by_cases hm : m.isNative
  · obtain ⟨q, s', hq, -⟩ := h
    exact absurd hq (not_answeredIn_native hm q s')
  · obtain ⟨fields, summary, s, hanswered, hrun⟩ :=
      exists_run_of_compile (eq_false_of_ne_true hm) hcompile
    rw [hanswered] at h h'
    exact h.unique (.body (Analysis.goesOnward_expression tokens.length) _ _ _) hrun h'

/-- **The code of an accepted procedure has one outline only** that follows its expressions. -/
theorem IsOutline.isOnly {cat : Catalogue} {options : Options} {session session' : Session}
    {c : Class} {m : Member} {tokens : List Token} {record : Record} {o : Outline}
    (ho : IsOutline (AnsweredIn cat options session c m tokens) o record.code)
    (h : compile cat options session c m tokens = (.ok record, session')) :
    IsOnlyOutline (AnsweredIn cat options session c m tokens) o record.code := by
  refine fun o' ↦ ⟨fun ho' ↦ ?_, fun heq ↦ heq ▸ ho⟩
  exact ho'.follows.eq_of_entries_eq (functional_of_compile h) ho.follows
    (ho'.listing.trans ho.listing.symm)

/-- All code of an accepted procedure is laid out as the opcodes say, but for declarations inside
other expressions. -/
theorem exists_laid {cat : Catalogue} {options : Options} {session session' : Session} {c : Class}
    {m : Member} {tokens : List Token} {record : Record}
    (h : compile cat options session c m tokens = (.ok record, session')) :
    ∃ o, IsOutline (AnsweredIn cat options session c m tokens) o record.code
      ∧ Outline.Laid (GapAt (AnsweredIn cat options session c m tokens))
        (CalleeAt (AnsweredIn cat options session c m tokens)) o 0 := by
  by_cases hm : m.isNative
  · exact ⟨[], isOutline_native hm h _, trivial⟩
  · obtain ⟨o, c₀, c₁, he⟩ := compile_emitted (eq_false_of_ne_true hm) h
    exact ⟨o, he.isOutline, he.laid⟩

/-! ## A sample

A class with a field, a method and an initializer, and a subclass with an initializer of its own,
for bodies that are given in full. -/

/-- The words of the code of a body, if the body is accepted. -/
def listing? (cat : Catalogue) (options : Options) (session : Session) (c : Class) (m : Member)
    (tokens : List Token) : Option (List Entry) :=
  (compile cat options session c m tokens).1.toOption.map (·.code.listing)

section

variable {cat : Catalogue} {options : Options} {session : Session} {c : Class} {m : Member}
  {tokens : List Token}

/-- A body whose record has something is accepted. -/
theorem exists_record_of_bind {α : Type} {f : Record → Option α} {a : α}
    (h : (compile cat options session c m tokens).1.toOption.bind f = some a) :
    ∃ record session', compile cat options session c m tokens = (.ok record, session')
      ∧ f record = some a := by
  cases hc : compile cat options session c m tokens with
  | mk result session' =>
    rw [hc] at h
    cases result with
    | error fault => cases h
    | ok record => exact ⟨record, session', rfl, h⟩

/-- A body that has a listing is accepted. -/
theorem exists_record {listing : List Entry}
    (h : listing? cat options session c m tokens = some listing) :
    ∃ record session', compile cat options session c m tokens = (.ok record, session')
      ∧ record.code.listing = listing := by
  rw [listing?, Option.map_eq_bind] at h
  obtain ⟨record, session', hcompile, hlisting⟩ := exists_record_of_bind h
  exact ⟨record, session', hcompile, Option.some.inj hlisting⟩

/-- Whether a body fails if expressions with some property are refused. -/
def refuses (cat : Catalogue) (options : Options) (session : Session) (c : Class) (m : Member)
    (tokens : List Token) (p : Query → State → Bool) : Bool :=
  !m.isNative && match cat.fieldsFor c m with
    | .error _ => false
    | .ok fields => (Analysis.value? (Analysis.body (.ofMember cat options c m)
        (Analysis.refusing p tokens.length) m.arguments [] 0
        (.start fields session tokens))).isNone

/-- An accepted body fails if expressions with some property are refused, just if it has one of
them. -/
theorem refuses_iff {record : Record} {session' : Session} {p : Query → State → Bool}
    (h : compile cat options session c m tokens = (.ok record, session')) :
    refuses cat options session c m tokens p
      ↔ ∃ q s', AnsweredIn cat options session c m tokens q s' ∧ p q s' := by
  by_cases hnative : m.isNative
  · refine ⟨fun hp ↦ ?_, fun ⟨q, s', hq, _⟩ ↦ absurd hq (not_answeredIn_native hnative q s')⟩
    rw [refuses, hnative] at hp
    cases hp
  rw [Bool.not_eq_true] at hnative
  obtain ⟨fields, summary, s, hfields, hbody, -⟩ := analyse_of_compile hnative h
  let body (rec : Recursion) : Analysis Summary :=
    Analysis.body (.ofMember cat options c m) rec m.arguments [] 0
  have hbody : body (Analysis.expression tokens.length) (.start fields session tokens)
    = .ok summary s := hbody
  have hrefuses : refuses cat options session c m tokens p = (Analysis.value?
      (body (Analysis.refusing p tokens.length) (.start fields session tokens))).isNone := by
    rw [refuses, hnative, hfields]
    rfl
  rw [hrefuses, answeredIn_eq hnative hfields]
  constructor
  · intro hp
    have hne : body (Analysis.refusing p tokens.length) (.start fields session tokens)
        ≠ body (Analysis.expression tokens.length) (.start fields session tokens) := by
      intro heq
      rw [heq, hbody] at hp
      cases hp
    obtain ⟨n, q, t, s', hq, hanswer, hp⟩ := Reaches.exists_of_refusing_ne
      (.body (Analysis.goesOnward_expression tokens.length) _ _ _) hne
    exact ⟨q, s', ⟨n, t, hq, hanswer⟩, hp⟩
  · rintro ⟨q, s', ⟨n, t, hq, hanswer⟩, hp⟩
    cases hrun : body (Analysis.refusing p tokens.length) (.start fields session tokens) with
    | error fault s₁ => rfl
    | ok a s₁ =>
      have hrec := (Analysis.goesOnward_expression tokens.length).of_within
        (Analysis.refusing_within p tokens.length)
      obtain ⟨t', s₂, hanswer'⟩ := hq.exists_refusing (.body hrec _ _ _) hrun
      cases hanswer.symm.trans (Analysis.refusing_within p n q t' s₂ hanswer')
      cases n with
      | zero => cases hanswer
      | succ n => exact absurd hp (ne_true_of_eq_false (Analysis.of_answer_refusing hanswer').2)

/-- A body that fails if expressions with code between two offsets are refused has one. -/
theorem hasCode_of_refuses {record : Record} {session' : Session} {first last : Nat}
    (h : compile cat options session c m tokens = (.ok record, session'))
    (hp : refuses cat options session c m tokens
      fun q s' ↦ q.state.offset == first && s'.offset == last) :
    HasCode (AnsweredIn cat options session c m tokens) first last := by
  obtain ⟨q, s', hq, hp⟩ := (refuses_iff h).mp hp
  obtain ⟨hfirst, hlast⟩ := Bool.and_eq_true_iff.mp hp
  exact ⟨q, s', hq, beq_iff_eq.mp hfirst, beq_iff_eq.mp hlast⟩

/-- Code that is all taken up by one expression is that of one item. -/
theorem IsOutline.exists_singleton {record : Record} {session' : Session} {o : Outline}
    {item : Item} (ho : IsOutline (AnsweredIn cat options session c m tokens) o record.code)
    (h : compile cat options session c m tokens = (.ok record, session'))
    (hl : record.code.listing = Outline.entries [item])
    (hcode : HasCode (AnsweredIn cat options session c m tokens) 0 item.size) :
    ∃ item', o = [item'] ∧ item'.opcode = item.opcode := by
  have hentries := ho.listing.trans hl
  rw [Outline.entries_singleton] at hentries
  cases o with
  | nil => exact absurd (congrArg List.length hentries) (Nat.ne_of_lt item.size_pos)
  | cons item' rest =>
    have hspans : HasCode (AnsweredIn cat options session c m tokens) 0 item'.size := by
      have hspans := ho.follows.1.spans
      rwa [Nat.zero_add] at hspans
    have hsize : item'.size = item.size :=
      (functional_of_compile h).spans item'.size_pos item.size_pos hspans hcode
    rw [Outline.entries_cons] at hentries
    have hrest : (Outline.entries rest).length = 0 := by
      have hlength := congrArg List.length hentries
      rw [List.length_append] at hlength
      exact Nat.left_eq_add.mp (hsize.trans hlength.symm)
    cases rest with
    | nil =>
      rw [Outline.entries_nil] at hentries
      exact ⟨item', rfl, Item.opcode_eq (hentries.trans (List.append_nil _).symm)⟩
    | cons item'' rest =>
      rw [Outline.entries_cons, List.length_append] at hrest
      exact absurd (Nat.eq_zero_of_add_eq_zero_right hrest) (Nat.ne_of_gt item''.size_pos)

end

namespace Sample

/-- A class 🐱 with a field `f`, a method 🐾 and an initializer 🆕. -/
def parent : ClassDeclaration where
  space := Vocabulary.defaultNamespace
  name := ⟨0x1F431⟩
  fields := [⟨"f", .boolean⟩]
  methods := [{ symbol := ⟨0x1F43E⟩ }]
  initializers := [{ symbol := ⟨0x1F195⟩ }]

/-- A subclass 🦁 of 🐱 with an initializer 🐾. -/
def child : ClassDeclaration where
  space := Vocabulary.defaultNamespace
  name := ⟨0x1F981⟩
  superclass? := some parent.typeId
  initializers := [{ symbol := ⟨0x1F43E⟩ }]

/-- The catalogue of both classes. -/
def catalogue : Catalogue := (Catalogue.empty.addIfPossible (.ofClass parent)).addIfPossible
  (.ofClass child)

/-- The registered class 🐱. -/
def parentClass : Class := (catalogue.class? parent.typeId).get (by decide +kernel)

/-- The registered class 🦁. -/
def childClass : Class := (catalogue.class? child.typeId).get (by decide +kernel)

/-- The method 🐾 of 🐱. -/
def method : Member := parentClass.methods.head (by decide +kernel)

/-- The initializer 🆕 of 🐱. -/
def initializer : Member := parentClass.initializers.head (by decide +kernel)

/-- The initializer 🐾 of 🦁. -/
def childInitializer : Member := childClass.initializers.head (by decide +kernel)

/-- The token of a lexeme, without a place. -/
def word (l : Lexeme) : Token := ⟨l, .nowhere⟩

/-- The token that asks for a construct. -/
def ask (c : Construct) : Token := word (.identifier c.spelling)

theorem fieldsFor_method : catalogue.fieldsFor parentClass method
    = .ok (some ⟨catalogue.fieldVariables parentClass false⟩) := by
  decide +kernel

end Sample

end Pictograph
