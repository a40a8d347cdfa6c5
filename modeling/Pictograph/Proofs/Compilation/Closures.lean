import Pictograph.Proofs.Analysis.Balance
import Pictograph.Proofs.Compilation.ClassMethods
import Pictograph.Proofs.Compilation.ReachedStates
import Pictograph.Proofs.Scope.Visibility

/-!
# What closures take over

A closure runs in a frame of its own. Its arguments come first, and behind them it takes over the
whole frame around it, so that a slot out there is a slot in here when the number of arguments is
added. Which of the slots have a name depends on the scopes: a name keeps what it refers to out
there, unless an argument has the same name. The scopes are flattened into one, and names that
were hidden in them are left out.

Whatever the statements of the closure do, the local scopes and the books of the frame around it are
put back behind it, apart from the note that the instance was referred to.

## Main results

* `Environment.find?_withoutHidden`: leaving out what is hidden changes no name.
* `closure_captures`: what a closure knows of the frame around it, and what it leaves of it.
* `closure_flag_bit`: when the bit of a closure that asks for the instance is set.
-/

namespace Pictograph

/-! ## Hidden names -/

namespace Environment

variable {e : Environment} {v : Variable} {x : String}

/-- Leaving out the variables that are hidden does not change what a name refers to. -/
theorem find?_withoutHidden {seen : List String} (hx : x ∉ seen) (l : List Variable) :
    (withoutHidden seen l).find? (·.name == x) = l.find? (·.name == x) := by
  rw [← List.head?_filter, filter_withoutHidden, if_neg hx, Option.head?_toList]

/-- The variables that are visible are those that names refer to. -/
theorem find?_visible (hx : e.resolve? x = some (.frame, v)) :
    e.visible.find? (·.name == x) = some v := by
  rw [visible, find?_withoutHidden List.not_mem_nil]
  exact (resolve?_eq_some.mp hx).1

end Environment

/-- Copies keep their names. -/
theorem Variable.find?_map_copyBehind (first : Nat) (l : List Variable) (x : String) :
    (l.map (·.copyBehind first)).find? (·.name == x)
      = (l.find? (·.name == x)).map (·.copyBehind first) := by
  rw [List.find?_map]
  rfl

/-! ## The frame of a closure -/

/-- What a closure with some arguments knows of the environment around it: its own scopes are one,
and in it every local name keeps what it refers to, unless an argument has it. -/
structure Environment.Captures (e : Environment) (arguments : List Argument) (e' : Environment) :
    Prop where
  outer : e'.outer = []
  copy : ∀ x v, e.resolve? x = some (.frame, v) → (∀ a ∈ arguments, a.name ≠ x) →
    e'.current.find? x = some { v with slot := arguments.length + v.slot }

namespace Analysis

variable {Γ : Setting} {rec : Recursion} {s s' entry ending : State} {arguments : List Argument}
  {t : Ty} {n : Nat}

/-- **A closure captures what is visible around it.** -/
theorem captures_of_encloses (hs : ∀ v, s.environment.Holds .frame v → v.slot < s.frame.slotCount)
    (h : Encloses Γ rec s arguments entry ending) :
    s.environment.Captures arguments entry.environment := by
  obtain @⟨s₁, s₂, s₃, result, close, first, h₁, h₂, hdeclare, htake, -⟩ := h
  have hcontext : s₂.context = s.context := (keeps_heading h₁ h₂).context
  have henvironment : s₂.environment = s.environment := congrArg Context.environment hcontext
  have hcount : s₂.frame.slotCount = s.frame.slotCount := congrArg Context.slotCount hcontext
  rw [henvironment, hcount] at htake
  obtain ⟨vs, hvs, -, -, hnames, -⟩ := declares_arguments hdeclare
  obtain ⟨vs', hvs', -, -, hcopies, -⟩ := declares_takeOver htake
  have hfront : s₃.environment.current.declared = vs :=
    congrArg (fun c : Context ↦ c.environment.current.declared) hvs.context
  have hslots : s₃.context.slotCount = arguments.length := by
    rw [hvs.context]
    exact Nat.zero_add _
  have hentry : entry.environment
      = { Environment.start s₂.environment.fields with current := ⟨vs ++ vs'⟩ } :=
    congrArg Context.environment (hvs.trans hvs').context
  rw [hentry]
  refine ⟨rfl, fun x v hx hfree ↦ ?_⟩
  have hpos : 0 < s.frame.slotCount :=
    Nat.lt_of_le_of_lt (Nat.zero_le _) (hs v (Environment.holds_of_resolve? hx))
  have hnotin : x ∉ vs.map (·.name) := by
    rw [hnames, List.mem_map]
    rintro ⟨a, ha, rfl⟩
    exact hfree a ha rfl
  have hnone : vs.find? (·.name == x) = none := by
    simpa using hnotin
  rw [hfront, hslots] at hcopies
  change (vs ++ vs').find? (·.name == x) = _
  rw [List.find?_append, hnone, Option.none_or, hcopies hpos, Variable.find?_map_copyBehind,
    Environment.find?_withoutHidden hnotin, Environment.find?_visible hx]
  rfl

/-- The body of a closure goes through the steps. Only the statements write code, and at the end
nothing changes but the warnings. -/
theorem exists_encloses_of_body {s₁ s₂ inner : State} {result : Ty} {summary : Summary}
    (h₁ : closureArguments Γ s = .ok arguments s₁) (h₂ : closureResult Γ s₁ = .ok result s₂)
    (h : body (Γ.ofClosure result) (expression n) arguments s₂.environment.visible
      s₂.frame.slotCount s₂.enterClosure = .ok summary inner) :
    ∃ entry ending session code, Encloses Γ (expression n) s arguments entry ending
      ∧ summary = ⟨ending.frame.slotCount, ending.frame.usesSelf⟩
      ∧ inner = { ending with session }
      ∧ ending.listing = entry.listing ++ code
      ∧ inner.listing = s₂.enterClosure.listing ++ code
      ∧ inner.holes = s₂.enterClosure.holes := by
  obtain ⟨entry, ending, session, hencloses, rfl, rfl⟩ := encloses_of_body h₁ h₂ h
  obtain ⟨h₁', h₂', hdeclare, htake, hstatements⟩ := id hencloses
  cases h₁.symm.trans h₁'
  cases h₂.symm.trans h₂'
  obtain ⟨vs, hvs, -⟩ := declares_arguments hdeclare
  obtain ⟨vs', hvs', -⟩ := declares_takeOver htake
  have hentry := hvs.trans hvs'
  obtain ⟨o, ho⟩ := wrote_bodyStatements
    (emitting_of_ok (m := fun r ↦ bodyStatements (Γ.ofClosure result) r) hstatements)
  refine ⟨entry, ending, session, _, hencloses, rfl, rfl, ho.listing, ?_, ?_⟩
  · rw [← hentry.listing]
    exact ho.listing
  · exact ho.holes.trans hentry.holes

/-- A closure that is accepted goes through its steps, writes its words around the code of its
statements, and puts the local scopes and the books around it back. -/
theorem exists_encloses (h : closure Γ (expression n) s = .ok t s') :
    ∃ arguments entry ending code, Encloses Γ (expression n) s arguments entry ending
      ∧ arguments.length < 2 ^ 16
      ∧ ending.listing = entry.listing ++ code
      ∧ s'.listing = s.listing ++ Opcode.closure.entry :: immediateNumber ending.frame.slotCount
        :: immediateNumber code.length :: (code
          ++ [immediate (closureWord arguments.length ending.frame.usesSelf),
            immediateNumber s.frame.slotCount])
      ∧ s'.context = s.context.withFields ending.environment.fields := by
  obtain ⟨arguments, s₁, result, s₂, h₁, h₂, summary, inner, b, hbody, hfill, hslots,
    henvironment, hframe, -⟩ := closure_ok (.of_run (m := fun r ↦ closure Γ r) h)
  have hlength : arguments.length < 2 ^ 16 :=
    Nat.lt_of_le_of_lt (length_arguments_le hbody.run rfl)
      (Nat.lt_of_le_of_lt (Nat.min_le_right _ _) (by decide))
  obtain ⟨entry, ending, session, code, hencloses, rfl, rfl, hcode, hlisting, hholes⟩ :=
    exists_encloses_of_body h₁ h₂ hbody.run
  have hkeeps := keeps_heading h₁ h₂
  obtain ⟨hwords, -⟩ := listing_of_closure hlisting hholes hfill hslots
  have hcount : s₂.frame.slotCount = s.frame.slotCount :=
    congrArg Context.slotCount hkeeps.context
  have hfront : s₂.listing = s.listing := by
    rw [hkeeps.listing, List.append_nil]
  rw [hcount, hfront] at hwords
  refine ⟨arguments, entry, ending, code, hencloses, hlength, hcode, hwords, ?_⟩
  rw [← hkeeps.context]
  simp only [State.context, henvironment, hframe]
  rfl

end Analysis

section

variable {cat : Catalogue} {options : Options} {session : Session} {c : Class} {m : Member}
  {tokens : List Token} {n : Nat} {q : Query} {t : Ty} {s' : State}

/-- **What a closure takes over, and what it leaves.** Wherever a closure is accepted, every local
name that no argument has keeps what it refers to in the scope that its statements begin in, in the
slot behind the arguments. Behind the code of the statements stand the number of arguments, with
nothing but the flag above it, and the number of slots around the closure. The local scopes around
it, the number of slots, the flag for returns and the open conditional blocks are what they were. -/
theorem closure_captures (h : ReachedIn cat options session c m tokens (n + 1) q)
    (hq : q.token.asksFor .blockOpen)
    (hanswer : (Analysis.expression (n + 1)).answer q = .ok t s') :
    ∃ arguments entry ending code,
      Encloses q.setting (Analysis.expression n) q.begun arguments entry ending
      ∧ q.state.environment.Captures arguments entry.environment
      ∧ ending.listing = entry.listing ++ code
      ∧ s'.listing = q.state.listing ++ Opcode.closure.entry
        :: immediateNumber ending.frame.slotCount :: immediateNumber code.length
        :: (code ++ [immediate (closureWord arguments.length ending.frame.usesSelf),
          immediateNumber q.state.frame.slotCount])
      ∧ arguments.length < 2 ^ 16
      ∧ (closureWord arguments.length ending.frame.usesSelf).toNat
        = arguments.length + (if ending.frame.usesSelf then 2 ^ 16 else 0)
      ∧ s'.environment.locals = q.state.environment.locals
      ∧ s'.frame.slotCount = q.state.frame.slotCount
      ∧ s'.frame.hasReturned = q.state.frame.hasReturned
      ∧ s'.frame.flowDepth = q.state.frame.flowDepth := by
  have hclosure : Analysis.closure q.setting (Analysis.expression n) q.begun = .ok t s' :=
    (Query.answer_of_asksFor hq nofun).symm.trans hanswer
  obtain ⟨arguments, entry, ending, code, hencloses, hlength, hcode, hlisting, hcontext⟩ :=
    Analysis.exists_encloses hclosure
  have hcaptures : q.begun.environment.Captures arguments entry.environment :=
    Analysis.captures_of_encloses h.distinct.lt hencloses
  have hlocals : s'.environment.locals = q.state.environment.locals :=
    congrArg (fun c : Context ↦ c.environment.locals) hcontext
  exact ⟨arguments, entry, ending, code, hencloses, hcaptures, hcode, hlisting, hlength,
    toNat_closureWord hlength _, hlocals, congrArg Context.slotCount hcontext,
    congrArg Context.hasReturned hcontext, congrArg Context.flowDepth hcontext⟩

end

namespace Sample

/-- A class 🐈 with a method 🐾 that takes an integer. -/
def kitten : ClassDeclaration where
  space := Vocabulary.defaultNamespace
  name := ⟨0x1F408⟩
  methods := [{ symbol := ⟨0x1F43E⟩, arguments := [⟨"n", .integer⟩] }]

/-- The catalogue with the class 🐈. -/
def litter : Catalogue := Catalogue.empty.addIfPossible (.ofClass kitten)

/-- The registered class 🐈. -/
def kittenClass : Class := (litter.class? kitten.typeId).get (by decide +kernel)

/-- The method 🐾 of 🐈. -/
def kittenMethod : Member := kittenClass.methods.head (by decide +kernel)

/-- A body with a closure that has an argument and reads that of the method, `🍇 x ⚪ ☁ n 🍉 🍉`. -/
def captureArgument : List Token :=
  [ask .blockOpen, word (.reference "x"), word (.identifier Vocabulary.anything),
    ask .isNothingness, word (.reference "n"), ask .blockClose, ask .blockClose]

/-- The argument of 🐾. -/
def kittenArgument : Variable :=
  (Variable.ready { name := "n", type := .integer, slot := 0, span := .nowhere }).frozen

/-- The analysis of this body gets to the closure, where the argument of the method is visible. -/
theorem reached_captureArgument :
    ∃ q t s', ReachedIn litter {} .start kittenClass kittenMethod captureArgument 7 q
      ∧ q.token.asksFor .blockOpen ∧ (Analysis.expression 7).answer q = .ok t s'
      ∧ Analysis.value? (Analysis.closureArguments q.setting q.begun) = some [⟨"x", .anything⟩]
      ∧ q.state.environment.resolve? "n" = some (.frame, kittenArgument) := by
  refine ⟨?first, .callable .nothingness [.anything], _,
    ⟨by decide +kernel, some .empty, by decide +kernel, .asked ?asks⟩,
    ?token, Analysis.eq_ok_of_value? ?answer, ?arguments, ?visible⟩
  case asks =>
    refine .behind rfl (.behind_value () (by decide +kernel) ?_)
    refine .behind_value 1 (by decide +kernel) (.first ?_)
    refine .behind rfl (.first ?_)
    refine .behind_value (ask .blockOpen) (by decide +kernel) (.first ?_)
    refine .behind_value () (by decide +kernel) (.first ?_)
    exact .call
  case token => decide +kernel
  case answer => decide +kernel
  case arguments => decide +kernel
  case visible => decide +kernel

end Sample

/-- The argument of a method is in slot 1 of a closure with one argument. -/
theorem closure_captures_argument :
    ∃ q t s' arguments entry ending, ReachedIn Sample.litter {} .start Sample.kittenClass
        Sample.kittenMethod Sample.captureArgument 7 q
      ∧ q.token.asksFor .blockOpen ∧ (Analysis.expression 7).answer q = .ok t s'
      ∧ Encloses q.setting (Analysis.expression 6) q.begun arguments entry ending
      ∧ entry.environment.current.find? "n" = some { Sample.kittenArgument with slot := 1 } := by
  obtain ⟨q, t, s', hq, htoken, hanswer, harguments, hvisible⟩ := Sample.reached_captureArgument
  obtain ⟨arguments, entry, ending, -, hencloses, hcaptures, -⟩ :=
    closure_captures hq htoken hanswer
  obtain rfl : arguments = [⟨"x", .anything⟩] := by
    obtain ⟨hread, -⟩ := hencloses
    rw [hread] at harguments
    exact Option.some.inj harguments
  exact ⟨q, t, s', _, entry, ending, hq, htoken, hanswer, hencloses,
    hcaptures.copy "n" _ hvisible (by decide)⟩

/-! ## The flag of a closure -/

/-- The flag is one bit of the word behind the body. -/
theorem Analysis.and_selfFlag_iff_testBit (w : UInt32) :
    w &&& selfFlag ≠ 0 ↔ w.toNat.testBit 16 = true := by
  have hand : (w &&& selfFlag).toNat = (w.toNat.testBit 16).toNat * 2 ^ 16 := by
    rw [UInt32.toNat_and, show selfFlag.toNat = 2 ^ 16 from rfl, Nat.and_two_pow]
  rw [ne_eq, ← UInt32.toNat_inj, hand]
  cases w.toNat.testBit 16 with
  | false => simp
  | true => simp

/-- The instructions that refer to the instance. -/
theorem Opcode.usesInstance_iff (op : Opcode) :
    op.usesInstance ↔ op ∈ [.access .object .load, .access .object .store,
      .access .object .increment, .access .object .decrement, .selfReference,
      .superMethodCall] := by
  unfold usesInstance
  split
  · next action => cases action <;> simp
  · simp
  · simp
  · next haccess hself hsuper =>
    refine iff_of_false Bool.false_ne_true fun hmem ↦ ?_
    simp only [List.mem_cons, List.not_mem_nil, or_false] at hmem
    rcases hmem with rfl | rfl | rfl | rfl | rfl | rfl
    · exact haccess _ rfl
    · exact haccess _ rfl
    · exact haccess _ rfl
    · exact haccess _ rfl
    · exact hself rfl
    · exact hsuper rfl

/-- **When a closure asks for the instance.** In the code of every accepted body the flag of a
closure, bit 16 of the word behind the code of its statements, is set if and only if an instruction
in this code reads, writes or steps a field, refers to the instance or calls a method of the
superclass on it, be it in the closure itself or in one inside it. -/
theorem closure_flag_bit {Γ : Setting} {arguments : List Argument} {fields : Option Scope}
    {session : Session} {tokens : List Token} {summary : Summary} {s : State}
    (h : analyse Γ arguments fields session tokens = .ok summary s) {k : Nat}
    (hk : s.assembler.chunk.opcodeAt? k = some .closure) :
    ∃ n w, s.assembler.chunk.ClosureAt k n w
      ∧ (s.assembler.chunk.size ≤ UInt32.size → s.assembler.chunk.closureWord? k = some w)
      ∧ (w.toNat.testBit 16 = true ↔ ∃ j op, k + 3 ≤ j ∧ j < k + 3 + n
        ∧ s.assembler.chunk.opcodeAt? j = some op
        ∧ op ∈ [.access .object .load, .access .object .store, .access .object .increment,
          .access .object .decrement, .selfReference, .superMethodCall]) := by
  obtain ⟨n, w, hclosure, hflag⟩ := (tracks_analyse h).exists_closureAt hk
  refine ⟨n, w, hclosure, hclosure.closureWord?_eq, ?_⟩
  rw [← Analysis.and_selfFlag_iff_testBit, hflag]
  simp only [Chunk.UsesInstanceAt, Opcode.usesInstance_iff, exists_and_left]

namespace Sample

/-- A body with a closure in a closure that refers to the instance, `🍇 🍇 ☁ 🐕 🍉 🍉 🍉`. -/
def selfInClosures : List Token :=
  [ask .blockOpen, ask .blockOpen, ask .isNothingness, ask .selfReference, ask .blockClose,
    ask .blockClose, ask .blockClose]

/-- The analysis of this body in a method. -/
def selfInClosuresAnalysis : EStateM.Result Fault State Summary :=
  analyse (.ofMember catalogue {} parentClass method) []
    (some ⟨catalogue.fieldVariables parentClass false⟩) .start selfInClosures

end Sample

/-- The flag of the outer closure is set, and there is an instruction in its code for it. -/
theorem closure_flag_bit_nested :
    ∃ summary s n w, Sample.selfInClosuresAnalysis = .ok summary s
      ∧ s.assembler.chunk.ClosureAt 0 n w ∧ w.toNat.testBit 16 = true
      ∧ ∃ j op, 3 ≤ j ∧ j < 3 + n ∧ s.assembler.chunk.opcodeAt? j = some op
        ∧ op.usesInstance := by
  have hanswer : Sample.selfInClosuresAnalysis = .ok ⟨0, true⟩ _ :=
    Analysis.eq_ok_of_value? (by decide +kernel)
  have hopcode : (Analysis.final Sample.selfInClosuresAnalysis).assembler.chunk.opcodeAt? 0
      = some .closure := by
    decide +kernel
  have hsize : (Analysis.final Sample.selfInClosuresAnalysis).assembler.chunk.size
      ≤ UInt32.size := by
    decide +kernel
  have hword : (Analysis.final Sample.selfInClosuresAnalysis).assembler.chunk.closureWord? 0
      = some 0x10000 := by
    decide +kernel
  obtain ⟨n, w, hclosure, hfound, hflag⟩ := closure_flag_bit hanswer hopcode
  obtain rfl : w = 0x10000 := Option.some.inj ((hfound hsize).symm.trans hword)
  have hset : (0x10000 : UInt32).toNat.testBit 16 = true := by decide
  obtain ⟨j, op, hfirst, hlast, hop, huses⟩ := hflag.mp hset
  exact ⟨_, _, n, _, hanswer, hclosure, hset, j, op, by omega, by omega, hop,
    op.usesInstance_iff.mpr huses⟩

end Pictograph
