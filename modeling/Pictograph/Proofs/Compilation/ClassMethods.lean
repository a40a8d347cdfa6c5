import Pictograph.Proofs.Analysis.SelfFlags
import Pictograph.Proofs.Compilation.Reservations

/-!
# The code of class methods

A class method runs without an instance. Its code has no instruction that touches one, neither in
the method nor in a closure inside it: no fields are in reach, and what refers to the instance
otherwise is refused. So its closures need no instance either, and the flags that ask for one are
clear.

The flags are right in the code of every procedure: a closure has its flag if and only if an
instruction in its body refers to the instance.

## Main definitions

* `Chunk.ClosureAt`: a closure with the number of words in its body and the word behind it.
* `Chunk.closureWord?`: the word behind the body of a closure, as an interpreter comes to it.

## Main results

* `closure_flags_exact`: the flags of closures in the code of a procedure.
* `class_method_has_no_instance`: the code of a class method touches no instance.
-/

namespace Pictograph

/-! ## Closures in code -/

/-- At an offset of some code stands a closure with `n` words in its body, and behind the body
stands the word `w`. -/
structure Chunk.ClosureAt (code : Chunk) (k n : Nat) (w : UInt32) : Prop where
  opcode : code.opcodeAt? k = some .closure
  count : code.wordAt? (k + 2) = some (UInt32.ofNat n)
  word : code.wordAt? (k + 3 + n) = some w

/-- The word behind the body of a closure, found by its word count. -/
def Chunk.closureWord? (code : Chunk) (k : Nat) : Option UInt32 := do
  let count ← code.wordAt? (k + 2)
  code.wordAt? (k + 3 + count.toNat)

/-- In code that is short enough an interpreter finds the word behind the body. -/
theorem Chunk.ClosureAt.closureWord?_eq {code : Chunk} {k n : Nat} {w : UInt32}
    (h : code.ClosureAt k n w) (hsize : code.size ≤ UInt32.size) :
    code.closureWord? k = some w := by
  have hword := lt_size_of_wordAt? h.word
  have hcount : (UInt32.ofNat n).toNat = n := UInt32.toNat_ofNat_of_lt' (by omega)
  rw [closureWord?, h.count, Option.bind_eq_bind, Option.bind_some, hcount, h.word]

/-- In the code of a body every closure is finished, and has the right flag. -/
theorem Tracks.exists_closureAt {a : Assembler} {usesSelf : Bool} (h : Tracks .none a usesSelf)
    {k : Nat} (hk : a.chunk.opcodeAt? k = some .closure) :
    ∃ n w, a.chunk.ClosureAt k n w ∧ (w &&& Analysis.selfFlag ≠ 0
      ↔ ∃ j, k + 3 ≤ j ∧ j < k + 3 + n ∧ a.chunk.UsesInstanceAt j) := by
  obtain hopen | ⟨n, w, hclosure⟩ := h.closures hk
  · exact hopen.elim
  · exact ⟨n, w, ⟨hk, hclosure.count, hclosure.word⟩, hclosure.flag⟩

/-! ## Static bodies -/

/-- What is kept in the body of a class method: no fields are in reach, and no instruction touches
the instance. -/
structure Assembler.Static (a : Assembler) (hasFields : Bool) : Prop where
  sound : a.Sound
  fields : hasFields = false
  touches : ∀ k op, a.chunk.opcodeAt? k = some op → op.touchesInstance = false

theorem Assembler.Static.spares {a a' : Assembler} {hasFields : Bool} {p : Opcode → Bool}
    (h : a.Static hasFields) (hs : a.Spares p a') (hp : ∀ op, op.touchesInstance → p op) :
    a'.Static hasFields where
  sound := hs.sound
  fields := h.fields
  touches k op hop := by
    refine eq_false_of_ne_true fun htouches ↦ ?_
    have hold := h.touches k op ((hs.marks (hp op htouches)).mp hop)
    exact Bool.false_ne_true (hold.symm.trans htouches)

namespace Analysis

variable {Γ : Setting} {rec : Recursion} {p : Span} {t : Ty} {s s' : State}

theorem not_selfReference_ok (hΓ : Γ.isStatic = true) :
    selfReference Γ p s ≠ .ok t s' := by
  intro h
  obtain ⟨_, s₁, h₁, -⟩ := bind_ok h
  have hstatic := (require_ok h₁).1
  rw [hΓ] at hstatic
  cases hstatic

theorem not_callSuperMethod_ok (hΓ : Γ.isStatic = true) :
    callSuperMethod Γ rec p s ≠ .ok t s' := by
  intro h
  obtain ⟨⟨_, _⟩, s₁, -, h⟩ := bind_ok h
  obtain ⟨_, s₂, h₂, -⟩ := bind_ok h
  have hstatic := (require_ok h₂).1
  rw [hΓ] at hstatic
  cases hstatic

theorem not_superInitializer_ok (hΓ : Γ.initializer? = none) :
    superInitializer Γ rec p s ≠ .ok t s' := by
  intro h
  obtain ⟨_, s₁, h₁, -⟩ := bind_ok h
  have hinitializer := (require_ok h₁).1
  rw [hΓ] at hinitializer
  cases hinitializer

end Analysis

namespace Invariant

open Analysis

/-- The invariant of static bodies. A superinitializer is refused in them for being outside of an
initializer. -/
def static : Invariant where
  setting Γ := Γ.isStatic = true ∧ Γ.initializer? = none
  holds a _ hasFields := a.Static hasFields
  reaches storage := storage = .frame

variable {Γ : Setting} {rec : Recursion}

theorem lawful_static : static.Lawful where
  sound h := h.sound
  spares h hs := h.spares hs fun op hop ↦ by
    rw [Opcode.isPlain, hop]
    rfl
  reaches_frame := rfl
  reaches_object h := nomatch h.fields
  access _ hreaches := nomatch hreaches

theorem handles_static (hrec : rec.Follows static.lockstep) : static.lockstep.Handles rec where
  selfReference p h := by
    obtain ⟨rfl, hstatic, -⟩ := h
    exact follows_iff.mpr fun _ _ _ _ h ↦ absurd h (not_selfReference_ok hstatic)
  callSuperMethod p h := by
    obtain ⟨rfl, hstatic, -⟩ := h
    exact follows_iff.mpr fun _ _ _ _ h ↦ absurd h (not_callSuperMethod_ok hstatic)
  superInitializer p h := by
    obtain ⟨rfl, -, hinitializer⟩ := h
    exact follows_iff.mpr fun _ _ _ _ h ↦ absurd h (not_superInitializer_ok hinitializer)
  closure {Γ Γ'} h := by
    have hown (result : Ty) : static.lockstep.setting
        { Γ with result, initializer? := none, options := Γ.options.withDeadCode true }
        { Γ' with result, initializer? := none, options := Γ'.options.withDeadCode true } := by
      obtain ⟨rfl, hstatic, -⟩ := h
      exact ⟨rfl, hstatic, rfl⟩
    have hemit : static.lockstep.Follows (emit .closure) (emit .closure) := by
      refine follows_iff.mpr fun s u s' hs h ↦ ?_
      cases h
      exact Assembler.Static.spares hs (hs.sound.spares_opcode rfl) fun _ ↦ id
    have huse : static.lockstep.Follows useSelf useSelf := by
      refine follows_iff.mpr fun s u s' hs h ↦ ?_
      cases h
      exact hs
    exact lawful_static.lockstep.follows_closure h hrec hown hemit huse (fun _ _ ↦ id)
      fun _ _ _ ↦ id

end Invariant

/-- No instruction of a static body touches the instance. -/
theorem static_analyse {Γ : Setting} {arguments : List Argument} {session : Session}
    {tokens : List Token} {summary : Summary} {s : State} (hstatic : Γ.isStatic = true)
    (hinitializer : Γ.initializer? = none)
    (h : analyse Γ arguments none session tokens = .ok summary s) :
    ∀ k op, s.assembler.chunk.opcodeAt? k = some op → op.touchesInstance = false :=
  (Invariant.holds_of_analyse (ι := Unit) (fun _ ↦ Invariant.lawful_static)
    (fun _ hrec _ ↦ Invariant.handles_static (hrec ())) () ⟨hstatic, hinitializer⟩
    ⟨Assembler.sound_start, rfl, nofun⟩ h).touches

/-! ## Procedures -/

section

variable {cat : Catalogue} {options : Options} {session session' : Session} {c : Class} {m : Member}
  {tokens : List Token} {record : Record}

/-- Only a body that was analysed has code with instructions. -/
theorem analyse_of_opcodeAt? (h : compile cat options session c m tokens = (.ok record, session'))
    {k : Nat} {op : Opcode} (hop : record.code.opcodeAt? k = some op) :
    ∃ fields summary s, cat.fieldsFor c m = .ok fields
      ∧ analyse (.ofMember cat options c m) m.arguments fields session tokens = .ok summary s
      ∧ record.code = s.assembler.chunk := by
  cases hm : m.isNative with
  | true =>
    rw [compile, if_pos hm] at h
    cases h
    cases hop
  | false =>
    obtain ⟨fields, summary, s, hfields, hbody, hcode, -⟩ := analyse_of_compile hm h
    exact ⟨fields, summary, s, hfields, hbody, hcode⟩

/-- **The flags of closures are right** in the code of every procedure: a closure has its flag if
and only if an instruction in its body refers to the instance. -/
theorem closure_flags_exact (h : compile cat options session c m tokens = (.ok record, session'))
    {k : Nat} (hk : record.code.opcodeAt? k = some .closure) :
    ∃ n w, record.code.ClosureAt k n w ∧ (w &&& Analysis.selfFlag ≠ 0
      ↔ ∃ j, k + 3 ≤ j ∧ j < k + 3 + n ∧ record.code.UsesInstanceAt j) := by
  obtain ⟨fields, summary, s, -, hbody, hcode⟩ := analyse_of_opcodeAt? h hk
  rw [hcode] at hk ⊢
  exact (tracks_analyse hbody).exists_closureAt hk

/-- No instruction of a class method touches the instance. -/
theorem class_method_untouched (hm : m.kind = .classMethod)
    (h : compile cat options session c m tokens = (.ok record, session')) {k : Nat} {op : Opcode}
    (hop : record.code.opcodeAt? k = some op) : op.touchesInstance = false := by
  obtain ⟨fields, summary, s, hfields, hbody, hcode⟩ := analyse_of_opcodeAt? h hop
  have hnone : fields = none := by
    rw [Catalogue.fieldsFor, hm] at hfields
    exact (Except.ok.inj hfields).symm
  subst hnone
  have hstatic : (Setting.ofMember cat options c m).isStatic = true := beq_iff_eq.mpr hm
  have hinitializer : (Setting.ofMember cat options c m).initializer? = none :=
    if_neg (by rw [hm]; decide)
  rw [hcode] at hop
  exact static_analyse hstatic hinitializer hbody k op hop

/-- **A class method has no instance.** In the code of a class method, closures included, no
instruction reads, writes or steps a field, refers to the instance, calls a method of the superclass
on it or initializes its superclass. The flag of every closure is clear, in the word behind the
body, and the word count leads to this word if there are not too many words to be counted. -/
theorem class_method_has_no_instance (hm : m.kind = .classMethod)
    (h : compile cat options session c m tokens = (.ok record, session')) :
    (∀ k op, record.code.opcodeAt? k = some op →
      (∀ action, op ≠ .access .object action) ∧ op ≠ .selfReference ∧ op ≠ .superMethodCall
        ∧ op ≠ .superInitializer)
    ∧ ∀ k, record.code.opcodeAt? k = some .closure →
      ∃ n w, record.code.ClosureAt k n w ∧ w &&& Analysis.selfFlag = 0
        ∧ (record.code.size ≤ UInt32.size → record.code.closureWord? k = some w) := by
  have huntouched {k : Nat} {op : Opcode} (hop : record.code.opcodeAt? k = some op) :
      op.touchesInstance = false := class_method_untouched hm h hop
  refine ⟨fun k op hop ↦ ⟨?_, ?_, ?_, ?_⟩, fun k hk ↦ ?_⟩
  · rintro action rfl
    cases huntouched hop
  · rintro rfl
    cases huntouched hop
  · rintro rfl
    cases huntouched hop
  · rintro rfl
    cases huntouched hop
  · obtain ⟨n, w, hclosure, hflag⟩ := closure_flags_exact h hk
    refine ⟨n, w, hclosure, by_contra fun hset ↦ ?_, hclosure.closureWord?_eq⟩
    obtain ⟨j, -, -, op, hop, huses⟩ := hflag.mp hset
    have htouches := op.touchesInstance_of_usesInstance huses
    rw [huntouched hop] at htouches
    cases htouches

end

namespace Sample

/-- A class 🐩 with a field `f` and a class method 🐾. -/
def poodle : ClassDeclaration where
  space := Vocabulary.defaultNamespace
  name := ⟨0x1F429⟩
  fields := [⟨"f", .boolean⟩]
  classMethods := [{ symbol := ⟨0x1F43E⟩ }]

/-- The catalogue with the class 🐩. -/
def kennel : Catalogue := Catalogue.empty.addIfPossible (.ofClass poodle)

/-- The registered class 🐩. -/
def poodleClass : Class := (kennel.class? poodle.typeId).get (by decide +kernel)

/-- The class method 🐾 of 🐩. -/
def poodleMethod : Member := poodleClass.classMethods.head (by decide +kernel)

/-- A body with a closure in a closure, `🍇 🍇 ☁ ⚡ 🍉 🍉 🍉`. -/
def closureInClosure : List Token :=
  [ask .blockOpen, ask .blockOpen, ask .isNothingness, ask .nothingness, ask .blockClose,
    ask .blockClose, ask .blockClose]

end Sample

/-- A class method with a closure in a closure is accepted, and the flags of both are clear. -/
theorem class_method_has_no_instance_sample :
    ∃ record session', compile Sample.kennel {} .start Sample.poodleClass Sample.poodleMethod
        Sample.closureInClosure = (.ok record, session')
      ∧ ∀ k ∈ [0, 3], record.code.opcodeAt? k = some .closure
        ∧ ∃ n w, record.code.ClosureAt k n w ∧ w &&& Analysis.selfFlag = 0 := by
  have hopcodes : (compile Sample.kennel {} .start Sample.poodleClass Sample.poodleMethod
      Sample.closureInClosure).1.toOption.map (fun record ↦ [0, 3].map record.code.opcodeAt?)
      = some [some .closure, some .closure] := by
    decide +kernel
  obtain ⟨record, session', h⟩ : ∃ record session', compile Sample.kennel {} .start
      Sample.poodleClass Sample.poodleMethod Sample.closureInClosure = (.ok record, session') := by
    generalize compile _ _ _ _ _ _ = r at hopcodes ⊢
    obtain ⟨_ | record, session'⟩ := r
    · cases hopcodes
    · exact ⟨record, session', rfl⟩
  rw [h] at hopcodes
  have hclosures := List.map_eq_replicate_iff.mp (Option.some.inj hopcodes)
  obtain ⟨-, hflags⟩ := class_method_has_no_instance (by decide +kernel) h
  refine ⟨record, session', h, fun k hk ↦ ⟨hclosures k hk, ?_⟩⟩
  obtain ⟨n, w, hclosure, hflag, -⟩ := hflags k (hclosures k hk)
  exact ⟨n, w, hclosure, hflag⟩

end Pictograph
