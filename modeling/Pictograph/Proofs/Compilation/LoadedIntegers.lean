import Pictograph.Proofs.Compilation.ReachedStates

/-!
# Integers that a body loads

A body loads integers in two ways: it writes them down as literals, or it names the values of
enumerations. A literal is written in the short form if its magnitude takes no more than 31 bits,
and is loaded as what it is. The number of a value of an enumeration is written in the short form if
it takes no more than 32 bits, though one of these is a sign to the interpreter. So the numbers with
exactly 32 bits are loaded as negative ones.

## Main definitions

* `Query.enumNumber?`: the number of the value that an access to an enumeration names.
* `IsMisread`: the numbers with exactly 32 bits.

## Main results

* `integers_roundTrip`: literals and 64-bit operands are read back as what was written.
* `ReachedIn.integerAt?_literal`: the literals of an accepted body are those that its code loads.
* `enumValues_load_their_numbers`: so are the values of enumerations, unless they are misread.
-/

namespace Pictograph

open Analysis

/-! ## Literals -/

/-- The instruction of an integer literal is the wide one just if the magnitude of the value takes
more than 31 bits, and it loads the value. -/
theorem Analysis.integerLiteral_run (value : Int64) (s : State) :
    ∃ s', integerLiteral value s = .ok .integer s'
      ∧ s'.assembler.chunk.integerAt? s.offset = some value
      ∧ s'.assembler.chunk.opcodeAt? s.offset
        = some (if 0x7FFFFFFF < value.toInt.natAbs then .wideInteger else .integer) := by
  have hsize (op : Opcode) : (s.assembler.opcode op).chunk.size = s.offset + 1 :=
    s.assembler.size_opcode op
  have hop (op : Opcode) : (s.assembler.opcode op).chunk.wordAt? s.offset = some op.word := by
    rw [Assembler.opcode, Chunk.wordAt?_pushOpcode]
    exact if_pos rfl
  have hmark (op : Opcode) : (s.assembler.opcode op).chunk.opcodeAt? s.offset = some op := by
    rw [Assembler.opcode, Chunk.opcodeAt?_pushOpcode]
    exact if_pos rfl
  unfold integerLiteral
  by_cases hwide : 0x7FFFFFFF < value.toInt.natAbs
  · have hform : isWide value := decide_eq_true hwide
    rw [if_pos hwide, if_pos hform]
    refine ⟨_, rfl, ?_, ?_⟩
    · exact (Chunk.integerAt?_pushWide (hsize _) (hop _) _ _).trans
        (congrArg some value.toInt64_toUInt64)
    · exact (Chunk.opcodeAt?_pushWord ..).trans ((Chunk.opcodeAt?_pushWord ..).trans (hmark _))
  · have hform : ¬ isWide value := fun hform ↦ hwide (of_decide_eq_true hform)
    rw [if_neg hwide, if_neg hform]
    refine ⟨_, rfl, ?_, (Chunk.opcodeAt?_pushWord ..).trans (hmark _)⟩
    refine (Chunk.integerAt?_pushWord (hsize _) (hop _) _ _).trans (congrArg some ?_)
    rw [Int32.toInt32_toUInt32, Int64.toInt64_toInt32_of_natAbs_le (Nat.le_of_not_lt hwide)]

/-- **Integers are read back as what was written.** The instruction of a literal loads its value,
also if more is written behind it, and is the wide one just if the magnitude of the value exceeds
31 bits. So is any 64-bit operand. -/
theorem integers_roundTrip :
    (∀ (value : Int64) (s : State), ∃ s', integerLiteral value s = .ok .integer s'
      ∧ (∀ later, (s'.assembler.chunk.followedBy later).integerAt? s.offset = some value)
      ∧ s'.assembler.chunk.opcodeAt? s.offset
        = some (if 0x7FFFFFFF < value.toInt.natAbs then .wideInteger else .integer))
    ∧ ∀ (value : UInt64) (c : Chunk) (line : Nat) (later : Array Cell),
      ((c.pushWide value line).followedBy later).wideAt? c.size = some value := by
  refine ⟨fun value s ↦ ?_, fun value c line later ↦ ?_⟩
  · obtain ⟨s', hrun, hvalue, hopcode⟩ := integerLiteral_run value s
    exact ⟨s', hrun, fun later ↦ (Chunk.staysIn_followedBy _ later _).integerAt? hvalue, hopcode⟩
  · exact (Chunk.staysIn_followedBy _ later _).wideAt? (c.wideAt?_pushWide value line)

/-- The smallest integer is written in the wide form. -/
example : isWide (-0x8000000000000000) = true := by decide

section

variable {cat : Catalogue} {options : Options} {session session' : Session} {c : Class} {m : Member}
  {tokens : List Token} {record : Record} {n : Nat} {q : Query}

/-- **The literals of an accepted body are those that its code loads.** -/
theorem ReachedIn.integerAt?_literal (h : ReachedIn cat options session c m tokens n q)
    (hcompile : compile cat options session c m tokens = (.ok record, session')) {value : Int64}
    (htoken : q.token.lexeme = .integer value) :
    record.code.integerAt? q.state.offset = some value := by
  obtain ⟨t, s', hanswer⟩ := h.answered hcompile
  refine (h.staysIn hcompile hanswer).integerAt? ?_
  cases n with
  | zero => cases hanswer
  | succ n =>
    obtain ⟨_, s₁, hline, hliteral⟩ := bind_ok hanswer
    cases hline
    rw [htoken] at hliteral
    obtain ⟨s₂, hrun, hvalue, -⟩ := integerLiteral_run value
      { q.state with assembler := q.state.assembler.atLine q.token.span.line }
    cases hrun.symm.trans hliteral
    exact hvalue

/-! ## Values of enumerations -/

/-- The numbers with exactly 32 bits, whose highest bit is a sign in one word. -/
def IsMisread (number : UInt64) : Prop := 0x80000000 ≤ number ∧ number < 0x100000000

instance (number : UInt64) : Decidable (IsMisread number) :=
  inferInstanceAs (Decidable (_ ∧ _))

/-- What the interpreter loads for the number of a value of an enumeration. -/
def loadedInteger (number : UInt64) : Int64 :=
  if number < 0x100000000 then number.toUInt32.toInt32.toInt64 else number.toInt64

theorem loadedInteger_eq {number : UInt64} (h : ¬ IsMisread number) :
    loadedInteger number = number.toInt64 := by
  unfold loadedInteger
  split
  · next hlt =>
    have hshort : number < 0x80000000 := UInt64.not_le.mp fun hle ↦ h ⟨hle, hlt⟩
    rw [UInt64.toUInt32_eq_toInt64, Int32.toInt32_toUInt32,
      Int64.toInt64_toInt32_of_natAbs_le (UInt64.natAbs_toInt_toInt64_of_lt hshort)]
  · rfl

/-- The number of the value that an access to an enumeration names. -/
def Query.enumNumber? (q : Query) : Option UInt64 :=
  match q.setting.catalogue.annotation q.setting.selfType q.setting.space q.setting.dynamism
      q.state.cursor with
  | .error _ _ => none
  | .ok (t, _) cursor =>
    match Reading.name cursor with
    | .error _ _ => none
    | .ok (value, _) _ => q.setting.catalogue.enumValue? t value

/-- The load of a value of an enumeration loads what the interpreter takes its number for. -/
theorem Analysis.integerAt?_emitEnumNumber {number : UInt64} {hole : Hole} {s s' : State} {u : Unit}
    (h : emitEnumNumber hole number s = .ok u s') (hsize : s.offset = hole.offset + 1) :
    s'.assembler.chunk.integerAt? hole.offset = some (loadedInteger number) := by
  have hfilled {op : Opcode} {a : Assembler} (ha : s.assembler.fillOpcode? hole op = some a) :
      a.chunk.size = hole.offset + 1 ∧ a.chunk.wordAt? hole.offset = some op.word := by
    obtain ⟨chunk, holes, hchunk, -, rfl⟩ := Assembler.exists_of_close ha
    refine ⟨(Chunk.size_of_patchOpcode? hchunk).trans hsize, ?_⟩
    rw [Chunk.wordAt?_patchOpcode? hchunk, if_pos rfl]
  unfold emitEnumNumber at h
  split at h
  · next hlt =>
    obtain ⟨_, s₁, hfill, h⟩ := bind_ok h
    obtain ⟨a, ha, rfl⟩ := filling_ok hfill
    cases h
    rw [loadedInteger, if_pos hlt]
    exact Chunk.integerAt?_pushWord (hfilled ha).1 (hfilled ha).2 _ _
  · next hge =>
    obtain ⟨_, s₁, hfill, h⟩ := bind_ok h
    obtain ⟨a, ha, rfl⟩ := filling_ok hfill
    cases h
    rw [loadedInteger, if_neg hge]
    exact Chunk.integerAt?_pushWide (hfilled ha).1 (hfilled ha).2 _ _

/-- An accepted access to an enumeration names one of its values, and loads the number. -/
theorem Analysis.integerAt?_enumValue {Γ : Setting} {span : Span} {s s' : State} {t : Ty}
    (h : enumValue Γ span s = .ok t s') (token : Token) (hint : Option Ty) :
    ∃ number, (⟨Γ, token, hint, s⟩ : Query).enumNumber? = some number
      ∧ s'.assembler.chunk.integerAt? s.offset = some (loadedInteger number) := by
  obtain ⟨hole, s₁, hreserve, h⟩ := bind_ok h
  cases hreserve
  obtain ⟨⟨t', b⟩, s₂, hreading, h⟩ := bind_ok h
  obtain ⟨c₁, htype, rfl⟩ := reading_ok hreading
  obtain ⟨_, _, hrequire, h⟩ := bind_ok h
  obtain ⟨-, rfl⟩ := require_ok hrequire
  obtain ⟨_, _, hrequire, h⟩ := bind_ok h
  obtain ⟨-, rfl⟩ := require_ok hrequire
  obtain ⟨⟨value, valueSpan⟩, s₃, hreading, h⟩ := bind_ok h
  obtain ⟨c₂, hname, rfl⟩ := reading_ok hreading
  obtain ⟨number, _, hdemand, h⟩ := bind_ok h
  obtain ⟨hnumber, rfl⟩ := demand_ok hdemand
  obtain ⟨_, s₄, hemit, h⟩ := bind_ok h
  cases h
  refine ⟨number, ?_, ?_⟩
  · dsimp only [Query.enumNumber?]
    rw [htype]
    dsimp only
    rw [hname]
    exact hnumber
  · exact integerAt?_emitEnumNumber hemit s.assembler.size_appendHole

/-- The access to an enumeration in an accepted body names one of its values, and the code loads the
number. -/
theorem ReachedIn.integerAt?_enumValue (h : ReachedIn cat options session c m tokens n q)
    (hcompile : compile cat options session c m tokens = (.ok record, session'))
    (htoken : q.token.asksFor .enumValue) :
    ∃ number, q.enumNumber? = some number
      ∧ record.code.integerAt? q.state.offset = some (loadedInteger number) := by
  obtain ⟨t, s', hanswer⟩ := h.answered hcompile
  have hstays := h.staysIn hcompile hanswer
  cases n with
  | zero => cases hanswer
  | succ n =>
    rw [q.answer_of_asksFor htoken nofun] at hanswer
    obtain ⟨number, hnames, hvalue⟩ := Analysis.integerAt?_enumValue hanswer q.token q.hint
    exact ⟨number, hnames, hstays.integerAt? hvalue⟩

/-- **The values of enumerations load their numbers**, unless these are misread. So those with
different numbers load different integers. -/
theorem enumValues_load_their_numbers {record' : Record} {options' : Options}
    {session₁ session₁' : Session} {c' : Class} {m' : Member} {tokens' : List Token} {n' : Nat}
    {q' : Query}
    (h : ReachedIn cat options session c m tokens n q)
    (hcompile : compile cat options session c m tokens = (.ok record, session'))
    (htoken : q.token.asksFor .enumValue)
    (h' : ReachedIn cat options' session₁ c' m' tokens' n' q')
    (hcompile' : compile cat options' session₁ c' m' tokens' = (.ok record', session₁'))
    (htoken' : q'.token.asksFor .enumValue) :
    ∃ number number', q.enumNumber? = some number ∧ q'.enumNumber? = some number'
      ∧ (¬ IsMisread number → record.code.integerAt? q.state.offset = some number.toInt64)
      ∧ (¬ IsMisread number' → record'.code.integerAt? q'.state.offset = some number'.toInt64)
      ∧ (¬ IsMisread number → ¬ IsMisread number' → number ≠ number' →
        record.code.integerAt? q.state.offset ≠ record'.code.integerAt? q'.state.offset) := by
  obtain ⟨number, hnames, hvalue⟩ := h.integerAt?_enumValue hcompile htoken
  obtain ⟨number', hnames', hvalue'⟩ := h'.integerAt?_enumValue hcompile' htoken'
  refine ⟨number, number', hnames, hnames', fun hread ↦ ?_, fun hread' ↦ ?_,
    fun hread hread' hne heq ↦ ?_⟩
  · rw [hvalue, loadedInteger_eq hread]
  · rw [hvalue', loadedInteger_eq hread']
  · rw [hvalue, hvalue', loadedInteger_eq hread, loadedInteger_eq hread'] at heq
    exact hne (UInt64.toInt64_inj (Option.some.inj heq))

end

namespace Sample

/-- An enumeration 🚦 with a small number, one of exactly 32 bits, and the negative number that it is
misread as. -/
def signals : Enumeration where
  space := Vocabulary.defaultNamespace
  name := ⟨0x1F6A6⟩
  values := [⟨⟨0x1F7E5⟩, 1⟩, ⟨⟨0x1F7E9⟩, 0x80000000⟩, ⟨⟨0x1F7E6⟩, 0xFFFFFFFF80000000⟩]

/-- The catalogue with the enumeration. -/
def signalled : Catalogue := catalogue.addIfPossible (.ofEnumeration signals)

/-- A body that is an access to a value of the enumeration, `🔺 🚦 value 🍉`. -/
def access (value : Symbol) : List Token :=
  [ask .enumValue, word (.identifier ⟨0x1F6A6⟩), word (.identifier value), ask .blockClose]

/-- The query for the access. -/
def accessQuery (value : Symbol) : Query :=
  .first (.ofMember signalled {} parentClass method)
    (some ⟨signalled.fieldVariables parentClass false⟩) .start (ask .enumValue) (access value).tail

theorem reachedIn_access (value : Symbol) :
    ReachedIn signalled {} .start parentClass method (access value) 4 (accessQuery value) :=
  reachedIn_first (by decide +kernel) rfl (by decide +kernel) (by decide +kernel)

/-- What the access loads, if the body is accepted. -/
def loadedBy? (value : Symbol) : Option Int64 :=
  (compile signalled {} .start parentClass method (access value)).1.toOption.bind fun record ↦
    record.code.integerAt? (accessQuery value).state.offset

/-- An access that loads something is accepted. -/
theorem exists_record_access (value : Symbol) (loaded : Int64)
    (h : loadedBy? value = some loaded) :
    ∃ record session', compile signalled {} .start parentClass method (access value)
        = (.ok record, session')
      ∧ record.code.integerAt? (accessQuery value).state.offset = some loaded :=
  exists_record_of_bind h

end Sample

/-- A small number and a negative one are loaded as different integers. -/
theorem enumValues_load_their_numbers_signals :
    ∃ record session record' session',
      compile Sample.signalled {} .start Sample.parentClass Sample.method (Sample.access ⟨0x1F7E5⟩)
        = (.ok record, session)
      ∧ compile Sample.signalled {} .start Sample.parentClass Sample.method
        (Sample.access ⟨0x1F7E6⟩) = (.ok record', session')
      ∧ record.code.integerAt? (Sample.accessQuery ⟨0x1F7E5⟩).state.offset = some 1
      ∧ record.code.integerAt? (Sample.accessQuery ⟨0x1F7E5⟩).state.offset
        ≠ record'.code.integerAt? (Sample.accessQuery ⟨0x1F7E6⟩).state.offset := by
  obtain ⟨record, session, hcompile, -⟩ :=
    Sample.exists_record_access ⟨0x1F7E5⟩ 1 (by decide +kernel)
  obtain ⟨record', session', hcompile', -⟩ :=
    Sample.exists_record_access ⟨0x1F7E6⟩ (-0x80000000) (by decide +kernel)
  obtain ⟨number, number', hnumber, hnumber', hload, -, hdiffer⟩ :=
    enumValues_load_their_numbers (Sample.reachedIn_access ⟨0x1F7E5⟩) hcompile (by decide +kernel)
      (Sample.reachedIn_access ⟨0x1F7E6⟩) hcompile' (by decide +kernel)
  have hone : (Sample.accessQuery ⟨0x1F7E5⟩).enumNumber? = some 1 := by decide +kernel
  have hhigh : (Sample.accessQuery ⟨0x1F7E6⟩).enumNumber? = some 0xFFFFFFFF80000000 := by
    decide +kernel
  obtain rfl : number = 1 := Option.some.inj (hnumber.symm.trans hone)
  obtain rfl : number' = 0xFFFFFFFF80000000 := Option.some.inj (hnumber'.symm.trans hhigh)
  exact ⟨record, session, record', session', hcompile, hcompile', hload (by decide),
    hdiffer (by decide) (by decide) (by decide)⟩

/-- **A number with exactly 32 bits is misread.** It is loaded as a negative integer, which is also
what the value with that number in 64 bits loads. -/
theorem enumValues_collide :
    ∃ record session record' session',
      compile Sample.signalled {} .start Sample.parentClass Sample.method (Sample.access ⟨0x1F7E9⟩)
        = (.ok record, session)
      ∧ ReachedIn Sample.signalled {} .start Sample.parentClass Sample.method
        (Sample.access ⟨0x1F7E9⟩) 4 (Sample.accessQuery ⟨0x1F7E9⟩)
      ∧ (Sample.accessQuery ⟨0x1F7E9⟩).token.asksFor .enumValue
      ∧ (Sample.accessQuery ⟨0x1F7E9⟩).enumNumber? = some 0x80000000
      ∧ record.code.integerAt? (Sample.accessQuery ⟨0x1F7E9⟩).state.offset = some (-0x80000000)
      ∧ (0x80000000 : UInt64).toInt64 ≠ -0x80000000
      ∧ compile Sample.signalled {} .start Sample.parentClass Sample.method
        (Sample.access ⟨0x1F7E6⟩) = (.ok record', session')
      ∧ (Sample.accessQuery ⟨0x1F7E6⟩).enumNumber? = some 0xFFFFFFFF80000000
      ∧ record'.code.integerAt? (Sample.accessQuery ⟨0x1F7E6⟩).state.offset
        = some (-0x80000000) := by
  obtain ⟨record, session, hcompile, hloaded⟩ :=
    Sample.exists_record_access ⟨0x1F7E9⟩ (-0x80000000) (by decide +kernel)
  obtain ⟨record', session', hcompile', hloaded'⟩ :=
    Sample.exists_record_access ⟨0x1F7E6⟩ (-0x80000000) (by decide +kernel)
  exact ⟨record, session, record', session', hcompile, Sample.reachedIn_access _,
    by decide +kernel, by decide +kernel, hloaded, by decide, hcompile', by decide +kernel,
    hloaded'⟩

end Pictograph
