import Mathlib.Data.Nat.Bitwise
import Pictograph.Proofs.Analysis.Bodies
import Pictograph.Proofs.Analysis.Invariants
import Pictograph.Proofs.Analysis.Touches

/-!
# The self flags of closures

Behind the body of a closure stands a word that says how many arguments the closure takes. One bit
of it is a flag, which tells the interpreter to keep the instance together with the closure. The
analysis keeps account of whether a body refers to the instance, and this account is exact: the flag
is set if and only if an instruction in the body of the closure refers to the instance, be it in the
closure itself or in one inside it.

That is an invariant of the code that was written, with the account of the running frame. The frames
around it are on hold: what is known of them is where their code refers to the instance, and which
closures in it are not finished.

## Main definitions

* `Assembler.HasClosure`: a closure is finished, and its flag is right.
* `Tracks`: the flags are right, and so is the account of the running frame.

## Main results

* `Tracks.leave`: behind its body a closure gets the right flag.
* `tracks_analyse`: the flags of all closures in the code of a body are right.
-/

namespace Pictograph

/-! ## Instructions that refer to the instance -/

/-- Whether an instruction refers to the instance by itself. The instance of a superinitializer is
that of the initializer around it, which is no closure. -/
def Opcode.usesInstance : Opcode → Bool
  | access .object _ | selfReference | superMethodCall => true
  | _ => false

/-- Whether an instruction matters for the flags of closures. -/
def Opcode.isFlagging (op : Opcode) : Bool := op.usesInstance || op == .closure

theorem Opcode.touchesInstance_of_usesInstance (op : Opcode) (h : op.usesInstance) :
    op.touchesInstance := by
  unfold usesInstance at h
  unfold touchesInstance
  split at h
  · rfl
  · rfl
  · rfl
  · cases h

theorem Opcode.not_isPlain_of_isFlagging {op : Opcode} (h : op.isFlagging) : !op.isPlain := by
  rcases Bool.or_eq_true_iff.mp h with h | h
  · rw [isPlain, op.touchesInstance_of_usesInstance h]
    rfl
  · rw [isPlain, bne, h, Bool.not_true, Bool.and_false]
    rfl

/-- An instruction at an offset refers to the instance. -/
def Chunk.UsesInstanceAt (c : Chunk) (k : Nat) : Prop :=
  ∃ op, c.opcodeAt? k = some op ∧ op.usesInstance

theorem Chunk.UsesInstanceAt.lt_size {c : Chunk} {k : Nat} (h : c.UsesInstanceAt k) : k < c.size :=
  have ⟨_, hop, _⟩ := h
  lt_size_of_opcodeAt? hop

namespace Assembler

variable {a a' : Assembler} {k n : Nat} {w : UInt32}

theorem Spares.usesInstanceAt {p : Opcode → Bool} (h : a.Spares p a')
    (hp : ∀ op, op.usesInstance → p op) (k : Nat) :
    a'.chunk.UsesInstanceAt k ↔ a.chunk.UsesInstanceAt k :=
  exists_congr fun _ ↦ and_congr_left fun hop ↦ h.marks (hp _ hop)

/-- The closure at an offset is finished: there are `n` words in its body, and behind them stands
the word `w`, in which the flag is set if and only if the body refers to the instance. -/
structure HasClosure (a : Assembler) (k n : Nat) (w : UInt32) : Prop where
  count : a.chunk.wordAt? (k + 2) = some (UInt32.ofNat n)
  word : a.chunk.wordAt? (k + 3 + n) = some w
  count_closed : k + 2 ∉ a.holes
  word_closed : k + 3 + n ∉ a.holes
  flag : w &&& Analysis.selfFlag ≠ 0
    ↔ ∃ j, k + 3 ≤ j ∧ j < k + 3 + n ∧ a.chunk.UsesInstanceAt j

/-- A closure that is finished stays as it is, as long as nothing in front of the next word begins
to refer to the instance. -/
theorem HasClosure.keep {p : Opcode → Bool} (h : a.HasClosure k n w) (hs : a.Spares p a')
    (huses : ∀ j < a.chunk.size, a'.chunk.UsesInstanceAt j ↔ a.chunk.UsesInstanceAt j) :
    a'.HasClosure k n w := by
  have hcount := Chunk.lt_size_of_wordAt? h.count
  have hword := Chunk.lt_size_of_wordAt? h.word
  refine ⟨?_, ?_, fun hhole ↦ ?_, fun hhole ↦ ?_, h.flag.trans (exists_congr fun j ↦ ?_)⟩
  · rw [hs.words hcount h.count_closed, h.count]
  · rw [hs.words hword h.word_closed, h.word]
  · exact (hs.holes hhole).elim h.count_closed (Nat.not_le_of_lt hcount)
  · exact (hs.holes hhole).elim h.word_closed (Nat.not_le_of_lt hword)
  · exact and_congr_right fun _ ↦ and_congr_right fun hj ↦ (huses j (Nat.lt_trans hj hword)).symm

end Assembler

/-! ## Accounts -/

/-- What is known about the frames around the running one. -/
structure Frames where
  /-- The closures that are not finished. -/
  isOpen : Nat → Prop
  /-- The offset of the first word of the running frame. -/
  first : Nat
  /-- Where the code in front of the running frame refers to the instance. -/
  uses : Nat → Prop

/-- The frame of a body is not inside another one. -/
def Frames.none : Frames := ⟨fun _ ↦ False, 0, fun _ ↦ False⟩

/-- The frames around the body of a closure that is about to be written. -/
def Frames.enter (i : Frames) (a : Assembler) : Frames where
  isOpen k := i.isOpen k ∨ k = a.chunk.size
  first := a.chunk.size + 3
  uses := a.chunk.UsesInstanceAt

/-- **The account is exact.** The running frame has referred to the instance if an instruction of it
does, the code in front of it is what it was, and the closures that are finished have the right
flags. -/
structure Tracks (i : Frames) (a : Assembler) (usesSelf : Bool) : Prop where
  sound : a.Sound
  first_le : i.first ≤ a.chunk.size
  before : ∀ k < i.first, a.chunk.UsesInstanceAt k ↔ i.uses k
  running : usesSelf = true ↔ ∃ k, i.first ≤ k ∧ a.chunk.UsesInstanceAt k
  closures : ∀ {k}, a.chunk.opcodeAt? k = some .closure → i.isOpen k ∨ ∃ n w, a.HasClosure k n w

namespace Tracks

open Assembler

variable {i : Frames} {a a' : Assembler} {u u' : Bool}

theorem start : Tracks .none .start false where
  sound := sound_start
  first_le := Nat.zero_le _
  before _ hk := nomatch hk
  running := iff_of_false nofun fun ⟨_, _, h⟩ ↦ nomatch h.lt_size
  closures h := nomatch h

theorem spares (h : Tracks i a u) (hs : a.Spares Opcode.isFlagging a') : Tracks i a' u := by
  have huses := hs.usesInstanceAt fun _ hop ↦ Bool.or_eq_true_iff.mpr (.inl hop)
  refine ⟨hs.sound, Nat.le_trans h.first_le hs.size_le,
    fun k hk ↦ (huses k).trans (h.before k hk), h.running.trans ?_, fun hk ↦ ?_⟩
  · exact exists_congr fun k ↦ and_congr_right fun _ ↦ (huses k).symm
  · refine (h.closures ((hs.marks rfl).mp hk)).imp_right ?_
    rintro ⟨n, w, hc⟩
    exact ⟨n, w, hc.keep hs fun j _ ↦ huses j⟩

theorem word (h : Tracks i a u) (w : UInt32) : Tracks i (a.word w) u :=
  h.spares (h.sound.spares_word w)

/-- An instruction that refers to the instance is taken into account. -/
theorem touch {op : Opcode} (h : Tracks i a u) (hop : op.usesInstance) :
    Tracks i (a.opcode op) true := by
  have hclosure : op ≠ .closure := by
    rintro rfl
    cases hop
  have hs : a.Spares (· == .closure) (a.opcode op) :=
    h.sound.spares_opcode (beq_false_of_ne hclosure)
  have hold (k : Nat) (hk : k < a.chunk.size) :
      (a.opcode op).chunk.UsesInstanceAt k ↔ a.chunk.UsesInstanceAt k := by
    simp only [Chunk.UsesInstanceAt, opcode, Chunk.opcodeAt?_pushOpcode, if_neg (Nat.ne_of_lt hk)]
  refine ⟨hs.sound, Nat.le_trans h.first_le hs.size_le, fun k hk ↦ ?_, ?_, fun hk ↦ ?_⟩
  · exact (hold k (Nat.lt_of_lt_of_le hk h.first_le)).trans (h.before k hk)
  · refine iff_of_true rfl ⟨a.chunk.size, h.first_le, op, ?_, hop⟩
    rw [opcode, Chunk.opcodeAt?_pushOpcode, if_pos rfl]
  · refine (h.closures ((hs.marks rfl).mp hk)).imp_right ?_
    rintro ⟨n, w, hc⟩
    exact ⟨n, w, hc.keep hs hold⟩

/-- In front of the body of a closure the account of its frame begins. -/
theorem enter (h : Tracks i a u) :
    Tracks (i.enter a) (a.opcode .closure).appendHole.appendHole false := by
  have hhole : (a.opcode .closure).Spares (fun _ ↦ true) (a.opcode .closure).appendHole :=
    (h.sound.sound_opcode .closure).spares_appendHole
  have hwords := hhole.trans hhole.sound.spares_appendHole
  have hs : a.Spares Opcode.usesInstance (a.opcode .closure).appendHole.appendHole :=
    (h.sound.spares_opcode rfl).trans (hwords.mono fun _ _ ↦ rfl)
  have huses := hs.usesInstanceAt fun _ ↦ id
  refine ⟨hs.sound, ?_, fun k _ ↦ huses k, iff_of_false nofun ?_, fun {k} hk ↦ ?_⟩
  · rw [size_appendHole, size_appendHole, size_opcode]
    exact Nat.le_refl _
  · rintro ⟨k, hk, hused⟩
    have hlt := ((huses k).mp hused).lt_size
    change a.chunk.size + 3 ≤ k at hk
    omega
  · replace hk := (hwords.marks rfl).mp hk
    rw [opcode, Chunk.opcodeAt?_pushOpcode] at hk
    split at hk
    · next hsize => exact .inl (.inr hsize)
    · refine (h.closures hk).imp .inl ?_
      rintro ⟨n, w, hc⟩
      exact ⟨n, w, hc.keep hs fun j _ ↦ huses j⟩

section

variable {b b₁ b₂ : Assembler} {w v z : UInt32}

/-- The words of a body are counted, and behind it comes the word with the flag. -/
theorem hasClosure_of_fillCount? (hle : a.chunk.size + 3 ≤ b.chunk.size) (hsound : b.Sound)
    (hcount : b.fillCount? ⟨a.chunk.size + 2⟩ = some b₁)
    (hflag : w &&& Analysis.selfFlag ≠ 0
      ↔ ∃ j, a.chunk.size + 3 ≤ j ∧ b.chunk.UsesInstanceAt j) :
    (b₁.word w).HasClosure a.chunk.size (b.chunk.size - (a.chunk.size + 2) - 1) w := by
  have hs : b.Spares (fun _ ↦ true) b₁ := hsound.spares_fillCount? hcount
  have hword : b₁.Spares (fun _ ↦ true) (b₁.word w) := hs.sound.spares_word w
  have huses := (hs.trans hword).usesInstanceAt fun _ _ ↦ rfl
  obtain ⟨chunk, holes, hchunk, hholes, rfl⟩ := exists_of_close hcount
  have hsize : chunk.size = b.chunk.size := Chunk.size_of_patch? hchunk
  have hend : a.chunk.size + 3 + (b.chunk.size - (a.chunk.size + 2) - 1) = chunk.size := by omega
  have hdecreasing := hsound.decreasing
  rw [hholes] at hdecreasing
  have hclosed : a.chunk.size + 2 ∉ holes := fun hmem ↦
    Nat.lt_irrefl _ ((List.pairwise_cons.mp hdecreasing).1 _ hmem)
  refine ⟨?_, ?_, hclosed, ?_, hflag.trans (exists_congr fun j ↦ and_congr_right fun _ ↦ ?_)⟩
  · refine (hword.words (by change _ < chunk.size; omega) hclosed).trans ?_
    change chunk.wordAt? _ = _
    rw [Chunk.wordAt?_patch? hchunk, if_pos rfl]
  · rw [hend]
    change (chunk.pushWord w b.line).wordAt? chunk.size = some w
    rw [Chunk.wordAt?_pushWord, if_pos rfl]
  · rw [hend]
    exact fun hmem ↦ Nat.lt_irrefl _ (hs.sound.lt_size _ hmem)
  · rw [hend, huses j]
    exact (and_iff_right_of_imp fun hused ↦ hsize ▸ hused.lt_size).symm

/-- **Behind its body a closure gets the right flag.** The words in the body are counted, behind it
come the word with the flag and the number of slots around the closure, and its own number of slots
is filled in. -/
theorem leave (h : Tracks i a u) (hbody : Tracks (i.enter a) b u')
    (hcount : b.fillCount? ⟨a.chunk.size + 2⟩ = some b₁)
    (hslots : ((b₁.word w).word v).fill? ⟨a.chunk.size + 1⟩ z = some b₂)
    (hflag : w &&& Analysis.selfFlag ≠ 0 ↔ u' = true) : Tracks i b₂ (u || u') := by
  have hle : a.chunk.size + 3 ≤ b.chunk.size := hbody.first_le
  have hfirst := h.first_le
  have hs₁ : b.Spares (fun _ ↦ true) b₁ := hbody.sound.spares_fillCount? hcount
  have hs₂ : b₁.Spares (fun _ ↦ true) (b₁.word w) := hs₁.sound.spares_word w
  have hv : (b₁.word w).Spares (fun _ ↦ true) ((b₁.word w).word v) := hs₂.sound.spares_word v
  have hs₃ := hv.trans (hv.sound.spares_fill? hslots)
  have hs := hs₁.trans (hs₂.trans hs₃)
  have huses := hs.usesInstanceAt fun _ _ ↦ rfl
  have hbefore (j : Nat) (hj : j < a.chunk.size + 3) :
      b₂.chunk.UsesInstanceAt j ↔ a.chunk.UsesInstanceAt j :=
    (huses j).trans (hbody.before j hj)
  refine ⟨hs.sound, Nat.le_trans ?_ hs.size_le, fun j hj ↦ ?_, ?_, fun {k} hk ↦ ?_⟩
  · omega
  · exact (hbefore j (by omega)).trans (h.before j hj)
  · rw [Bool.or_eq_true, h.running, hbody.running]
    constructor
    · rintro (⟨j, hj, hused⟩ | ⟨j, hj, hused⟩)
      · have hlt := hused.lt_size
        exact ⟨j, hj, (hbefore j (by omega)).mpr hused⟩
      · change a.chunk.size + 3 ≤ j at hj
        exact ⟨j, by omega, (huses j).mpr hused⟩
    · rintro ⟨j, hj, hused⟩
      by_cases hlt : j < a.chunk.size + 3
      · exact .inl ⟨j, hj, (hbefore j hlt).mp hused⟩
      · exact .inr ⟨j, Nat.le_of_not_lt hlt, (huses j).mp hused⟩
  · rcases hbody.closures ((hs.marks rfl).mp hk) with (hk | rfl) | ⟨n, w, hc⟩
    · exact .inl hk
    · have hc := hasClosure_of_fillCount? hle hbody.sound hcount (hflag.trans hbody.running)
      exact .inr ⟨_, w, hc.keep hs₃ fun j _ ↦ hs₃.usesInstanceAt (fun _ _ ↦ rfl) j⟩
    · exact .inr ⟨n, w, hc.keep hs fun j _ ↦ huses j⟩

end

end Tracks

/-! ## The flag -/

namespace Analysis

/-- The flag is set in a word that it was set in. -/
theorem and_selfFlag_of_or (w : UInt32) : (w ||| selfFlag) &&& selfFlag = selfFlag := by
  refine UInt32.toBitVec_inj.mp (BitVec.eq_of_getLsbD_eq fun i hi ↦ ?_)
  simp +contextual

/-- The number of arguments does not reach the flag. -/
theorem ofNat_and_selfFlag {n : Nat} (h : n < 2 ^ 16) : UInt32.ofNat n &&& selfFlag = 0 := by
  have hmod : n % 2 ^ 32 = n := Nat.mod_eq_of_lt (by omega)
  refine UInt32.toNat_inj.mp ?_
  rw [UInt32.toNat_and, UInt32.toNat_ofNat', hmod, show selfFlag.toNat = 2 ^ 16 from rfl,
    Nat.and_two_pow, Nat.testBit_lt_two_pow h]
  rfl

/-- The word of a closure has the flag if the closure refers to the instance. -/
theorem closureWord_and_selfFlag {n : Nat} (h : n < 2 ^ 16) (usesSelf : Bool) :
    closureWord n usesSelf &&& selfFlag ≠ 0 ↔ usesSelf = true := by
  cases usesSelf with
  | true =>
    rw [closureWord, if_pos rfl, and_selfFlag_of_or]
    exact iff_of_true (by decide) rfl
  | false =>
    rw [closureWord, if_neg Bool.false_ne_true, ofNat_and_selfFlag h]
    exact iff_of_false (not_not_intro rfl) Bool.false_ne_true

end Analysis

/-! ## The account as an invariant -/

/-- The account of the frames, as an invariant of the analysis. -/
def accounts (i : Frames) : Invariant where
  setting _ := True
  holds a usesSelf _ := Tracks i a usesSelf
  reaches _ := True

namespace Invariant

open Analysis

variable {i : Frames} {Γ : Setting} {rec : Recursion}

theorem lawful_accounts (i : Frames) : (accounts i).Lawful where
  sound h := h.sound
  spares h hs := h.spares (hs.mono fun _ ↦ Opcode.not_isPlain_of_isFlagging)
  reaches_frame := trivial
  reaches_object _ := trivial
  access _ _ h := h.touch rfl

theorem follows_callSuperMethod_accounts (hrec : rec.Follows (accounts i).lockstep) (p : Span) :
    (accounts i).lockstep.Follows (callSuperMethod Γ rec p) (callSuperMethod Γ rec p) := by
  have hL := (lawful_accounts i).lockstep
  refine hL.follows_name.bind fun ⟨method, q⟩ ↦ (hL.follows_require _ _ _).bind fun _ ↦ ?_
  refine (hL.follows_demand _ _ _).bind fun parent ↦ follows_iff.mpr fun s t s' hs h ↦ ?_
  obtain ⟨_, s₁, h₁, h⟩ := bind_ok h
  cases h₁
  obtain ⟨_, s₂, h₂, h⟩ := bind_ok h
  cases h₂
  obtain ⟨m, s₃, h₃, h⟩ := bind_ok h
  obtain ⟨-, rfl⟩ := demand_ok h₃
  obtain ⟨_, s₄, h₄, h⟩ := bind_ok h
  cases h₄
  obtain ⟨_, s₅, h₅, h⟩ := bind_ok h
  cases h₅
  refine follows_iff.mp (hL.follows_callMember ⟨rfl, trivial⟩ hrec rfl _ _) _ _ _ ?_ h
  -- the frame takes the instruction into account two words later
  have htouch : Tracks i (s.assembler.opcode .superMethodCall) true := Tracks.touch hs rfl
  exact (htouch.word _).word _

theorem follows_closure_accounts (hrec : ∀ i, rec.Follows (accounts i).lockstep) (i : Frames) :
    (accounts i).lockstep.Follows (closure Γ rec) (closure Γ rec) := by
  have hL := (lawful_accounts i).lockstep
  refine follows_iff.mpr fun s t s' hs h ↦ ?_
  obtain ⟨arguments, s₁, result, s₂, h₁, h₂, summary, inner, b, hbody, hcount, hslots, -, hframe,
    -⟩ := closure_ok (.of_run (m := fun r ↦ closure Γ r) h)
  have hs₁ := follows_iff.mp (hL.follows_closureArguments ⟨rfl, trivial⟩) _ _ _ hs h₁
  have hs₂ := follows_iff.mp (hL.follows_closureResult ⟨rfl, trivial⟩) _ _ _ hs₁ h₂
  have hinner : Tracks (Frames.enter i s₂.assembler) inner.assembler inner.frame.usesSelf := by
    have hL' := (lawful_accounts (Frames.enter i s₂.assembler)).lockstep
    refine follows_iff.mp (hL'.follows_body ⟨rfl, trivial⟩ (hrec _) _ _ _) _ _ _ ?_ hbody.run
    exact Tracks.enter hs₂
  have hlength : arguments.length < 2 ^ 16 :=
    Nat.lt_of_le_of_lt (length_arguments_le hbody.run rfl)
      (Nat.lt_of_le_of_lt (Nat.min_le_right _ _) (by decide))
  rw [Assembler.size_appendHole, Assembler.size_opcode] at hcount
  rw [Assembler.size_opcode] at hslots
  have husesSelf : inner.frame.usesSelf = summary.usesSelf :=
    congrArg (·.usesSelf) (summary_of_body hbody.run).symm
  rw [husesSelf] at hinner
  change Tracks i s'.assembler s'.frame.usesSelf
  rw [hframe]
  exact Tracks.leave hs₂ hinner hcount hslots (closureWord_and_selfFlag hlength _)

theorem handles_accounts (hrec : ∀ i, rec.Follows (accounts i).lockstep) (i : Frames) :
    (accounts i).lockstep.Handles rec where
  selfReference p h := by
    obtain ⟨rfl, -⟩ := h
    refine (lawful_accounts i).lockstep.follows_selfReference ⟨rfl, trivial⟩ p fun t ↦ ?_
    refine follows_iff.mpr fun s t s' hs h ↦ ?_
    cases h
    exact Tracks.touch hs rfl
  callSuperMethod p h := by
    obtain ⟨rfl, -⟩ := h
    exact follows_callSuperMethod_accounts (hrec i) p
  superInitializer p h := by
    refine (lawful_accounts i).lockstep.follows_superInitializer h (hrec i) p ?_
    refine follows_iff.mpr fun s u s' hs h ↦ ?_
    cases h
    exact Tracks.spares hs (hs.sound.spares_opcode rfl)
  closure h := by
    obtain ⟨rfl, -⟩ := h
    exact follows_closure_accounts hrec i

end Invariant

/-- **The flags of all closures in the code of a body are right.** -/
theorem tracks_analyse {Γ : Setting} {arguments : List Argument} {fields : Option Scope}
    {session : Session} {tokens : List Token} {summary : Summary} {s : State}
    (h : analyse Γ arguments fields session tokens = .ok summary s) :
    Tracks .none s.assembler s.frame.usesSelf :=
  Invariant.holds_of_analyse Invariant.lawful_accounts
    (fun _ hrec i ↦ Invariant.handles_accounts hrec i) Frames.none trivial Tracks.start h

end Pictograph
