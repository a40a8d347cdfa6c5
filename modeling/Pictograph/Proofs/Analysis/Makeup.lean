import Pictograph.Proofs.Analysis.Passage
import Pictograph.Proofs.Code.Offsets
import Pictograph.Proofs.Source.Lookahead

/-!
# What tokens and code have to do with each other

An analysis reads tokens and writes code, and does its books in between. Most steps do the books or
write: these do not look at the tokens, and what they write they write for the current line. Few
steps look at the tokens: readers, and the two places that blame or compare the next token. That
leaves the expressions inside a construct. Each of them starts with a token that was read just
before it, and this token is the one that the current line is taken from.

This module says that all constructs are made of such steps, closures included. So what is to be
shown of all analyses about tokens and lines has to be shown of the steps, of one step behind
another and of repetitions.

This does not go through `Composed`, which lets an analysis go to any line at any time, and ask how
many tokens are left.

## Main definitions

* `State.Parallel`: two states are alike in what is decided by, apart from the tokens.
* `Blind`: an analysis that does not look at the tokens and writes for the current line.
* `Made`: an analysis that is made of blind steps, readers and expressions.

## Main results

* `made_construct`, `exists_made`: all expressions are made in this way.
* `made_body`: so are bodies.
-/

namespace Pictograph

/-! ## Code on the current line -/

namespace Chunk

variable {c c' : Chunk} {offset : Nat}

/-- A word can be overwritten if it is there. -/
theorem isSome_patch?_iff {w : UInt32} : (c.patch? offset w).isSome ↔ offset < c.size := by
  unfold patch?
  split
  · next hlt => exact iff_of_true rfl hlt
  · next hge => exact iff_of_false Bool.false_ne_true hge

theorem isSome_patchOpcode?_iff {op : Opcode} :
    (c.patchOpcode? offset op).isSome ↔ offset < c.size := by
  unfold patchOpcode?
  split
  · next hlt => exact iff_of_true rfl hlt
  · next hge => exact iff_of_false Bool.false_ne_true hge

end Chunk

namespace Assembler

variable {a a' b b' : Assembler}

/-- Two assemblers are alike in the size of their code and in what is reserved. -/
structure Parallel (a a' : Assembler) : Prop where
  size : a'.chunk.size = a.chunk.size
  holes : a'.holes = a.holes

/-- Words were added for the current line, and nothing changed about the lines of others. -/
structure Lengthens (a b : Assembler) : Prop where
  line : b.line = a.line
  lines : ∃ n, b.chunk.lines = a.chunk.lines ++ List.replicate n a.line

theorem Parallel.refl (a : Assembler) : a.Parallel a := ⟨rfl, rfl⟩

theorem Lengthens.refl (a : Assembler) : a.Lengthens a := ⟨rfl, 0, (List.append_nil _).symm⟩

theorem Lengthens.trans {c : Assembler} (h : a.Lengthens b) (h' : b.Lengthens c) :
    a.Lengthens c := by
  obtain ⟨n, hn⟩ := h.lines
  obtain ⟨n', hn'⟩ := h'.lines
  refine ⟨h'.line.trans h.line, n + n', ?_⟩
  rw [hn', hn, h.line, List.append_assoc, List.replicate_append_replicate]

theorem Parallel.opcode (h : a.Parallel a') (op op' : Opcode) :
    (a.opcode op).Parallel (a'.opcode op') :=
  ⟨by rw [size_opcode, size_opcode, h.size], h.holes⟩

theorem Parallel.word (h : a.Parallel a') (w w' : UInt32) : (a.word w).Parallel (a'.word w') :=
  ⟨by rw [size_word, size_word, h.size], h.holes⟩

theorem Parallel.appendHole (h : a.Parallel a') : a.appendHole.Parallel a'.appendHole :=
  ⟨by rw [size_appendHole, size_appendHole, h.size],
    by rw [Assembler.appendHole, Assembler.appendHole, h.size, h.holes]⟩

theorem lengthens_opcode (a : Assembler) (op : Opcode) : a.Lengthens (a.opcode op) :=
  ⟨rfl, 1, Chunk.lines_pushOpcode ..⟩

theorem lengthens_word (a : Assembler) (w : UInt32) : a.Lengthens (a.word w) :=
  ⟨rfl, 1, Chunk.lines_pushWord ..⟩

theorem lengthens_appendHole (a : Assembler) : a.Lengthens a.appendHole :=
  ⟨rfl, 1, Chunk.lines_pushWord ..⟩

/-- Whether a reservation can be closed depends on what is reserved and on whether its word is
there. -/
theorem Parallel.exists_close (h : a.Parallel a') {offset : Nat}
    {write write' : Chunk → Nat → Option Chunk}
    (hwrite : ∀ c, write a.chunk offset = some c → c.size = a.chunk.size)
    (hwrite' : ∀ c, write' a'.chunk offset = some c → c.size = a'.chunk.size)
    (hsome : (write a.chunk offset).isSome → (write' a'.chunk offset).isSome)
    (hclose : a.close offset write = some b) :
    ∃ b', a'.close offset write' = some b' ∧ b.Parallel b' := by
  obtain ⟨c, holes, hc, hholes, rfl⟩ := exists_of_close hclose
  obtain ⟨c', hc'⟩ := Option.isSome_iff_exists.mp (hsome (Option.isSome_of_eq_some hc))
  refine ⟨{ a' with chunk := c', holes }, ?_, ?_, rfl⟩
  · rw [close, h.holes, hholes]
    dsimp only
    rw [if_pos rfl, hc', Option.map_some]
  · exact (hwrite' c' hc').trans (h.size.trans (hwrite c hc).symm)

theorem Parallel.exists_patch (h : a.Parallel a') {offset : Nat} {w : UInt32} (w' : UInt32)
    (hclose : a.close offset (·.patch? · w) = some b) :
    ∃ b', a'.close offset (·.patch? · w') = some b' ∧ b.Parallel b' := by
  refine h.exists_close (fun _ ↦ Chunk.size_of_patch?) (fun _ ↦ Chunk.size_of_patch?) ?_ hclose
  rw [Chunk.isSome_patch?_iff, Chunk.isSome_patch?_iff, h.size]
  exact id

theorem Parallel.exists_patchOpcode (h : a.Parallel a') {offset : Nat} {op : Opcode}
    (hclose : a.close offset (·.patchOpcode? · op) = some b) :
    ∃ b', a'.close offset (·.patchOpcode? · op) = some b' ∧ b.Parallel b' := by
  refine h.exists_close (fun _ ↦ Chunk.size_of_patchOpcode?) (fun _ ↦ Chunk.size_of_patchOpcode?)
    ?_ hclose
  rw [Chunk.isSome_patchOpcode?_iff, Chunk.isSome_patchOpcode?_iff, h.size]
  exact id

theorem lengthens_of_close {offset : Nat} {write : Chunk → Nat → Option Chunk}
    (hwrite : ∀ c, write a.chunk offset = some c → c.lines = a.chunk.lines)
    (hclose : a.close offset write = some b) : a.Lengthens b := by
  obtain ⟨c, holes, hc, -, rfl⟩ := exists_of_close hclose
  exact ⟨rfl, 0, (hwrite c hc).trans (List.append_nil _).symm⟩

end Assembler

/-! ## Repetitions -/

/-- What each step of a repetition keeps, the repetition keeps. -/
theorem Analysis.keeps_of_repeating {σ β : Type} {step : σ → Analysis (σ ⊕ β)} {I : State → Prop}
    (h : ∀ {v s answer t}, step v s = .ok answer t → I s → I t) {n : Nat} {v : σ} {s t : State}
    {b : β} (hm : repeating step n v s = .ok b t) (hs : I s) : I t := by
  induction n generalizing v s with
  | zero => cases hm
  | succ n ih =>
    obtain ⟨answer, s₁, hstep, hm⟩ := bind_ok hm
    have hs₁ := h hstep hs
    cases answer with
    | inl v' => exact ih hm hs₁
    | inr b' =>
      obtain ⟨rfl, rfl⟩ := pure_ok hm
      exact hs₁

/-! ## Blind steps -/

/-- Two states are alike in what an analysis decides by, apart from the tokens: in the variables in
reach, in the bookkeeping of the body, and in what is reserved. Words, strings and warnings may
differ. -/
structure State.Parallel (s s' : State) : Prop where
  assembler : s.assembler.Parallel s'.assembler
  environment : s'.environment = s.environment
  frame : s'.frame = s.frame

theorem State.Parallel.refl (s : State) : s.Parallel s := ⟨.refl _, rfl, rfl⟩

variable {α β : Type}

/-- An analysis that does not look at the tokens and leaves them alone. Nor does it decide by words,
strings or warnings. What it writes, it writes for the current line. -/
structure Blind (m : Analysis α) : Prop where
  parallel : ∀ {s s' t : State} {a : α}, s.Parallel s' → m s = .ok a t →
    ∃ t', m s' = .ok a t' ∧ t.Parallel t' ∧ t'.cursor = s'.cursor
  lengthens : ∀ {s t : State} {a : α}, m s = .ok a t → s.assembler.Lengthens t.assembler

namespace Blind

open Analysis

variable {m m' : Analysis α} {f : α → Analysis β} {s t : State} {a : α} {Γ : Setting} {span : Span}

/-- The tokens stay where they are. -/
theorem cursor_eq (h : Blind m) (hm : m s = .ok a t) : t.cursor = s.cursor := by
  obtain ⟨t', hm', -, hcursor⟩ := h.parallel (.refl s) hm
  cases hm.symm.trans hm'
  exact hcursor

/-! ### Rules -/

theorem pure (a : α) : Blind (pure a : Analysis α) where
  parallel {s s' t b} hs h := by
    obtain ⟨rfl, rfl⟩ := pure_ok h
    exact ⟨s', rfl, hs, rfl⟩
  lengthens h := by
    obtain ⟨-, rfl⟩ := pure_ok h
    exact .refl _

theorem throw (fault : Fault) : Blind (throw fault : Analysis α) := ⟨nofun, nofun⟩

theorem bind (h : Blind m) (h' : ∀ a, Blind (f a)) : Blind (m >>= f) where
  parallel hs hb := by
    obtain ⟨a, s₁, ha, hb⟩ := bind_ok hb
    obtain ⟨s₁', ha', hs₁, hcursor⟩ := h.parallel hs ha
    obtain ⟨t', hb', ht, hcursor'⟩ := (h' a).parallel hs₁ hb
    exact ⟨t', (bind_of_ok ha').trans hb', ht, hcursor'.trans hcursor⟩
  lengthens hb := by
    obtain ⟨a, s₁, ha, hb⟩ := bind_ok hb
    exact (h.lengthens ha).trans ((h' a).lengthens hb)

theorem ite {p : Prop} [Decidable p] (h : Blind m) (h' : Blind m') :
    Blind (if p then m else m') := by
  split
  · exact h
  · exact h'

theorem forM {l : List β} {g : β → Analysis Unit} (h : ∀ b, Blind (g b)) : Blind (l.forM g) := by
  induction l with
  | nil => exact pure ()
  | cons b l ih => exact (h b).bind fun _ ↦ ih

/-- What an analysis does may depend on everything that parallel states have in common. -/
theorem look {g : State → Analysis α} (hg : ∀ s s', s.Parallel s' → g s' = g s)
    (h : ∀ s, Blind (g s)) : Blind (get >>= g) where
  parallel {s s' t a} hs hm := by
    obtain ⟨t', hm', ht⟩ := (h s).parallel hs hm
    rw [← hg s s' hs] at hm'
    exact ⟨t', hm', ht⟩
  lengthens {s t a} hm := (h s).lengthens hm

/-- A step that always succeeds, and changes nothing but books. -/
theorem books {m : Analysis Unit} (g : State → State) (hm : ∀ s, m s = .ok () (g s))
    (hg : ∀ s, (g s).cursor = s.cursor ∧ (g s).assembler = s.assembler)
    (hparallel : ∀ s s', s.Parallel s' →
      (g s').environment = (g s).environment ∧ (g s').frame = (g s).frame) : Blind m where
  parallel {s s' t u} hs h := by
    cases (hm s).symm.trans h
    refine ⟨g s', hm s', ⟨?_, (hparallel s s' hs).1, (hparallel s s' hs).2⟩, (hg s').1⟩
    rw [(hg s).2, (hg s').2]
    exact hs.assembler
  lengthens {s t u} h := by
    cases (hm s).symm.trans h
    rw [(hg s).2]
    exact .refl _

/-! ### Books -/

theorem warn (remark : Remark) (span : Span) : Blind (warn remark span) :=
  books _ (fun _ ↦ rfl) (fun _ ↦ ⟨rfl, rfl⟩) fun _ _ hs ↦ ⟨hs.environment, hs.frame⟩

theorem modifyEnvironment (g : Environment → Environment) : Blind (modifyEnvironment g) :=
  books _ (fun _ ↦ rfl) (fun _ ↦ ⟨rfl, rfl⟩)
    fun _ _ hs ↦ ⟨congrArg g hs.environment, hs.frame⟩

theorem modifyFrame (g : Frame → Frame) : Blind (modifyFrame g) :=
  books _ (fun _ ↦ rfl) (fun _ ↦ ⟨rfl, rfl⟩)
    fun _ _ hs ↦ ⟨hs.environment, congrArg g hs.frame⟩

theorem frame : Blind frame := look (fun _ _ hs ↦ by rw [hs.frame]) fun _ ↦ pure _

theorem resolve? (x : String) : Blind (resolve? x) :=
  look (fun _ _ hs ↦ by rw [hs.environment]) fun _ ↦ pure _

theorem require (condition : Bool) (cause : Cause) (span : Span) :
    Blind (require condition cause span) :=
  ite (pure ()) (throw _)

theorem demand (value? : Option α) (cause : Cause) (span : Span) :
    Blind (demand value? cause span) := by
  cases value? with
  | none => exact throw _
  | some value => exact pure value

theorem lift (x : Except Fault α) : Blind (lift x) := by
  cases x with
  | error fault => exact throw fault
  | ok value => exact pure value

theorem declare (v : Variable) : Blind (declare v) where
  parallel {s s' t u} hs h := by
    unfold Analysis.declare at h ⊢
    rw [hs.environment]
    split at h
    · next e he =>
      cases h
      exact ⟨_, rfl, ⟨hs.assembler, rfl, hs.frame⟩, rfl⟩
    · cases h
  lengthens h := by
    unfold Analysis.declare at h
    split at h <;> cases h
    exact .refl _

theorem requireUndeclared (x : String) : Blind (requireUndeclared x span) :=
  look (fun _ _ hs ↦ by rw [hs.environment]) fun _ ↦ require _ _ _

theorem requireComplete : Blind (requireComplete Γ span) :=
  ite (look (fun _ _ hs ↦ by rw [hs.environment]) fun _ ↦ lift _) (pure ())

theorem useSelf : Blind useSelf := modifyFrame _

theorem newSlot : Blind (newSlot Γ span) :=
  frame.bind fun _ ↦ (require _ _ _).bind fun _ ↦ (modifyFrame _).bind fun _ ↦ pure _

theorem recommendFrozen (candidates : List Variable) : Blind (recommendFrozen Γ candidates) :=
  ite (forM fun _ ↦ warn _ _) (pure ())

theorem enterConditional (withFields : Bool) : Blind (enterConditional withFields) :=
  look (fun _ _ hs ↦ by rw [hs.environment]) fun _ ↦
    ite ((throw _).bind fun _ ↦ modifyEnvironment _) (modifyEnvironment _)

theorem leaveConditional (withFields : Bool) : Blind (leaveConditional withFields) :=
  look (fun _ _ hs ↦ by rw [hs.environment]) fun _ ↦ (modifyEnvironment _).bind fun _ ↦ pure _

theorem enterScope : Blind enterScope := modifyEnvironment _

theorem leaveScope : Blind (leaveScope Γ) := by
  refine look (fun _ _ hs ↦ by rw [hs.environment]) fun s ↦ ?_
  cases s.environment.pop? with
  | none => exact pure ()
  | some popped => exact (modifyEnvironment _).bind fun _ ↦ recommendFrozen _

theorem declareArgument (a : Argument) : Blind (declareArgument Γ span a) :=
  newSlot.bind fun _ ↦ declare _

theorem takeOver (captured : List Variable) (outerSlots : Nat) :
    Blind (takeOver Γ span captured outerSlots) := by
  have hcopy (first : Nat) (v : Variable) : Blind (declareCaptured Γ span first v) :=
    look (fun _ _ hs ↦ by rw [hs.environment]) fun _ ↦
      ite ((require _ _ _).bind fun _ ↦ declare _) (pure ())
  exact frame.bind fun _ ↦
    ite ((forM (hcopy _)).bind fun _ ↦ (modifyFrame _).bind fun _ ↦ pure _) (pure _)

theorem leaveBody (firstTaken outerSlots : Nat) :
    Blind (leaveBody Γ firstTaken outerSlots span) :=
  look (fun _ _ hs ↦ by rw [hs.environment]) fun _ ↦
    (recommendFrozen _).bind fun _ ↦ frame.bind fun _ ↦ (require _ _ _).bind fun _ ↦
    requireComplete.bind fun _ ↦ frame.bind fun _ ↦ (require _ _ _).bind fun _ ↦
    frame.bind fun _ ↦ pure _

/-! ### Writing -/

theorem assemble {g : Assembler → Assembler} (hg : ∀ a a', a.Parallel a' → (g a).Parallel (g a'))
    (hlengthens : ∀ a : Assembler, a.Lengthens (g a)) : Blind (assemble g) where
  parallel {s s' t u} hs h := by
    cases h
    exact ⟨_, rfl, ⟨hg _ _ hs.assembler, hs.environment, hs.frame⟩, rfl⟩
  lengthens h := by
    cases h
    exact hlengthens _

theorem emit (op : Opcode) : Blind (emit op) :=
  assemble (fun _ _ h ↦ h.opcode op op) (·.lengthens_opcode op)

theorem emitWord (w : UInt32) : Blind (emitWord w) :=
  assemble (fun _ _ h ↦ h.word w w) (·.lengthens_word w)

theorem emitNumber (n : Nat) : Blind (emitNumber n) := emitWord _

theorem emitWide (value : UInt64) : Blind (emitWide value) :=
  assemble (fun _ _ h ↦ (h.word _ _).word _ _) fun a ↦
    (a.lengthens_word _).trans (Assembler.lengthens_word _ _)

theorem emitAccess (storage : Storage) (action : Access) (slot : Nat) :
    Blind (emitAccess storage action slot) :=
  (emit _).bind fun _ ↦ ite (useSelf.bind fun _ ↦ emitNumber _) (emitNumber _)

/-- A reservation is known by where its word is. -/
theorem reserving {ρ : Type} {m : Analysis ρ} (handle : Nat → ρ)
    (hm : ∀ s, m s = .ok (handle s.assembler.chunk.size)
      { s with assembler := s.assembler.appendHole }) : Blind m where
  parallel {s s' t hole} hs h := by
    cases (hm s).symm.trans h
    refine ⟨{ s' with assembler := s'.assembler.appendHole }, ?_,
      ⟨hs.assembler.appendHole, hs.environment, hs.frame⟩, rfl⟩
    rw [hm, hs.assembler.size]
  lengthens {s t hole} h := by
    cases (hm s).symm.trans h
    exact Assembler.lengthens_appendHole _

theorem reserve : Blind reserve := reserving Hole.mk fun _ ↦ rfl

theorem reserveCount : Blind reserveCount := reserving CountHole.mk fun _ ↦ rfl

theorem filling {g : Assembler → Option Assembler}
    (hg : ∀ {a a' b : Assembler}, a.Parallel a' → g a = some b → ∃ b', g a' = some b'
      ∧ b.Parallel b')
    (hlengthens : ∀ {a b : Assembler}, g a = some b → a.Lengthens b) : Blind (filling g) where
  parallel {s s' t u} hs h := by
    obtain ⟨a, ha, rfl⟩ := filling_ok h
    obtain ⟨b, hb, hparallel⟩ := hg hs.assembler ha
    refine ⟨{ s' with assembler := b }, ?_, ⟨hparallel, hs.environment, hs.frame⟩, rfl⟩
    rw [Analysis.filling, hb]
  lengthens h := by
    obtain ⟨a, ha, rfl⟩ := filling_ok h
    exact hlengthens ha

theorem fill (hole : Hole) (w : UInt32) : Blind (fill hole w) :=
  filling (fun h ↦ h.exists_patch w) (Assembler.lengthens_of_close fun _ ↦ Chunk.lines_patch?)

theorem fillOpcode (hole : Hole) (op : Opcode) : Blind (fillOpcode hole op) :=
  filling (fun h ↦ h.exists_patchOpcode)
    (Assembler.lengthens_of_close fun _ ↦ Chunk.lines_patchOpcode?)

theorem fillCount (hole : CountHole) : Blind (fillCount hole) :=
  filling (fun h ↦ h.exists_patch _) (Assembler.lengthens_of_close fun _ ↦ Chunk.lines_patch?)

/-- The position of a string depends on the strings met before, and is nothing but a word of the
code. -/
theorem stringLiteral (content : String) : Blind (stringLiteral content) where
  parallel {s s' t a} hs h := by
    cases h
    exact ⟨_, rfl, ⟨(hs.assembler.opcode _ _).word _ _, hs.environment, hs.frame⟩, rfl⟩
  lengthens {s t a} h := by
    cases h
    exact (s.assembler.lengthens_opcode _).trans (Assembler.lengthens_word _ _)

end Blind

/-! ## What analyses are made of -/

open Analysis in
/-- An analysis that is made of blind steps, readers and the expressions inside it, which are
analysed by `rec`. In front of it a token may have been read that no expression was analysed from
yet. -/
inductive Made (rec : Recursion) : Option Token → {α : Type} → Analysis α → Prop
  /-- A step that does not look at the tokens. -/
  | blind {α : Type} {m : Analysis α} (h : Blind m) : Made rec none m
  /-- A reader. -/
  | reading {α : Type} {r : Reading α} (h : r.Lasts r) : Made rec none (reading r)
  /-- A look at what parallel states have in common. -/
  | look {α : Type} {g : State → Analysis α} (hg : ∀ s s', s.Parallel s' → g s' = g s)
    (h : ∀ s, Made rec none (g s)) : Made rec none (get >>= g)
  /-- The place to blame for what comes next. -/
  | here : Made rec none here
  /-- The statement that comes next, if it is dead. -/
  | deadStatement? : Made rec none deadStatement?
  | bind {α β : Type} {token? : Option Token} {m : Analysis α} {f : α → Analysis β}
    (h : Made rec token? m) (h' : ∀ a, Made rec none (f a)) : Made rec token? (m >>= f)
  | repeatUntil {σ β : Type} {step : σ → Analysis (σ ⊕ β)} (h : ∀ v, Made rec none (step v))
    (v : σ) : Made rec none (repeatUntil step v)
  /-- A token is read. -/
  | next {α : Type} {f : Token → Analysis α} (h : ∀ token, Made rec (some token) (f token)) :
    Made rec none (next >>= f)
  /-- The expression that starts with the token that was read. -/
  | call {Γ : Setting} {token : Token} {hint : Option Ty} : Made rec (some token) (rec Γ token hint)
  /-- No expression starts with the token that was read. -/
  | drop {α : Type} {token : Token} {m : Analysis α} (h : Made rec none m) : Made rec (some token) m
  /-- The expression that starts with the token that was read comes later. -/
  | before {α β : Type} {token : Token} {m : Analysis α} {f : α → Analysis β} (h : Blind m)
    (h' : ∀ a, Made rec (some token) (f a)) : Made rec (some token) (m >>= f)

namespace Made

open Analysis

variable {rec : Recursion} {token? : Option Token} {token : Token} {m m' : Analysis α}
  {Γ : Setting} {span : Span}

/-! ### Rules -/

theorem ite {p : Prop} [Decidable p] (h : Made rec token? m) (h' : Made rec token? m') :
    Made rec token? (if p then m else m') := by
  split
  · exact h
  · exact h'

theorem pure (a : α) : Made rec none (pure a : Analysis α) := .blind (.pure a)

theorem fail (cause : Cause) : Made rec none (fail cause span : Analysis α) := .blind (.throw _)

/-- A blind step in front. -/
theorem step {β : Type} {m : Analysis α} {f : α → Analysis β} (h : Blind m)
    (h' : ∀ a, Made rec none (f a)) : Made rec none (m >>= f) :=
  (blind h).bind h'

/-- A blind step that may be left out. -/
theorem optional {p : Prop} [Decidable p] {x : Analysis Unit} {f : Unit → Analysis α}
    (h : Blind x) (h' : Made rec none (f ())) : Made rec none (if p then x >>= f else f ()) :=
  .ite (.step h fun _ ↦ h') h'

theorem name : Made rec none name := .reading .name

theorem variableName : Made rec none variableName := .reading .variableName

theorem accepts (construct : Construct) : Made rec none (accepts construct) := by
  rw [Analysis.accepts, map_eq_pure_bind]
  exact .bind (.reading (.accept _)) fun _ ↦ .pure _

theorem annotated (dynamism : Dynamism) : Made rec none ( annotation Γ dynamism) :=
  .reading (Γ.catalogue.lasts_annotated _ _ _)

theorem inScope (h : Made rec none m) : Made rec none (inScope Γ m) := by
  rw [Composed.inScope_eq]
  exact .step .enterScope fun _ ↦ .bind h fun _ ↦ .step .leaveScope fun _ ↦ .pure _

/-- A frame of its own is books that are put aside. -/
theorem inFrame (h : Made rec none m) : Made rec none (inFrame m) := by
  rw [Analysis.inFrame_eq_bind]
  refine .look (fun _ _ hs ↦ by rw [hs.environment, hs.frame]) fun outer ↦ .step ?_ fun _ ↦
    .bind h fun _ ↦ .step ?_ fun _ ↦ .pure _
  · exact .books _ (fun _ ↦ rfl) (fun _ ↦ ⟨rfl, rfl⟩) fun s s' hs ↦ ⟨by rw [hs.environment], rfl⟩
  · exact .books _ (fun _ ↦ rfl) (fun _ ↦ ⟨rfl, rfl⟩) fun s s' hs ↦ ⟨by rw [hs.environment], rfl⟩

end Made

/-! ## Operands, arguments and statements -/

section

open Analysis

variable {rec : Recursion} {token : Token} {Γ : Setting} {span : Span}

theorem made_operand : Made rec none (operand Γ rec) := .next fun _ ↦ .call

theorem made_operandAndSpan : Made rec none (operandAndSpan Γ rec) :=
  .next fun _ ↦ .bind .call fun _ ↦ .pure _

theorem made_fitting (expected : Ty) : Made rec (some token) (fitting Γ rec token expected) :=
  .bind .call fun _ ↦ .step (.require _ _ _) fun _ ↦ .pure _

theorem made_operandFitting (expected : Ty) : Made rec none (operandFitting Γ rec expected) :=
  .next fun _ ↦ made_fitting expected

theorem made_operandsFitting (expected : List Ty) :
    Made rec none (operandsFitting Γ rec expected) := by
  induction expected with
  | nil => exact .pure ()
  | cons t expected ih => exact .bind (made_operandFitting t) fun _ ↦ ih

theorem made_arguments (expected : List Ty) : Made rec none (arguments Γ rec expected) :=
  .bind (.reading (.accept _)) fun _ ↦ .bind (made_operandsFitting expected) fun _ ↦
    .ite (.bind (.reading (.expect _)) fun _ ↦ .pure _) (.pure _)

theorem made_callMember (m : Member) (receiver : Ty) :
    Made rec none (callMember Γ rec m receiver span) :=
  .step (.require _ _ _) fun _ ↦ .bind (made_arguments _) fun _ ↦ .pure _

theorem made_statement : Made rec (some token) (statement Γ rec token) :=
  .before (.modifyFrame _) fun _ ↦ .bind .call fun _ ↦
    .step .frame fun _ ↦ .ite (.blind (.warn _ _)) (.pure _)

theorem made_statements : Made rec none (statements Γ rec) :=
  .repeatUntil (fun _ ↦ .next fun _ ↦
    .ite (.drop (.pure _)) (.bind made_statement fun _ ↦ .pure _)) ()

/-! ## Blocks and bodies -/

theorem made_conditionalBlock : Made rec none (conditionalBlock Γ rec) := by
  rw [conditionalBlock_eq]
  simp only [inBlock, enterBlock, leaveBlock, bind_assoc]
  exact .step (.enterConditional _) fun _ ↦ .step (.modifyFrame _) fun _ ↦
    .bind (.reading (.expectConstruct _ _)) fun _ ↦ .step .reserveCount fun _ ↦
    .bind made_statements fun _ ↦ .step (.fillCount _) fun _ ↦
    .step (.leaveConditional _) fun _ ↦ .step (.modifyFrame _) fun _ ↦ .pure _

theorem made_storeNew (x : String) : Made rec none (storeNew Γ rec x span) :=
  .step (.emit _) fun _ ↦ .step .newSlot fun _ ↦ .step (.emitNumber _) fun _ ↦
    .bind made_operand fun _ ↦ .pure _

theorem made_condition : Made rec none (condition Γ rec) :=
  .bind (.accepts _) fun _ ↦ .ite
    (.bind .variableName fun _ ↦ .step (.requireUndeclared _) fun _ ↦ .step (.emit _) fun _ ↦
      .step .newSlot fun _ ↦ .step (.emitNumber _) fun _ ↦ .bind .here fun _ ↦
      .bind made_operand fun _ ↦ .step (.require _ _ _) fun _ ↦ .blind (.declare _))
    (.bind (made_operandFitting _) fun _ ↦ .pure _)

theorem made_branch : Made rec none (branch Γ rec) :=
  .inScope (.bind made_condition fun _ ↦ made_conditionalBlock)

/-- What a body does behind a statement. -/
def behindStatement (Γ : Setting) (reported : Bool) : Analysis (Bool ⊕ Span) := do
  if reported then
    return .inl true
  match ← deadStatement? with
  | none => return .inl false
  | some dead =>
    warn .deadCode dead.span
    if Γ.options.compilesDeadCode then
      return .inl true
    return .inr (← skipBody)

theorem bodyStep_eq (reported : Bool) : bodyStep Γ rec reported = next >>= fun token ↦
    if token.asksFor .blockClose then pure (.inr token.span)
    else statement Γ rec token >>= fun _ ↦ behindStatement Γ reported := rfl

theorem made_skipStep (depth : Nat) : Made rec none (skipStep depth) :=
  .next fun _ ↦ .drop (.ite (.pure _) (.ite (.pure _) (.pure _)))

theorem made_skipBody : Made rec none skipBody := .repeatUntil made_skipStep 0

theorem made_behindStatement (reported : Bool) : Made rec none (behindStatement Γ reported) := by
  refine .ite (.pure _) (.bind .deadStatement? fun dead? ↦ ?_)
  cases dead? with
  | none => exact .pure _
  | some dead =>
    exact .step (.warn _ _) fun _ ↦ .ite (.pure _) (.bind made_skipBody fun _ ↦ .pure _)

theorem made_bodyStep (reported : Bool) : Made rec none (bodyStep Γ rec reported) := by
  rw [bodyStep_eq]
  exact .next fun _ ↦ .ite (.drop (.pure _)) (.bind made_statement fun _ ↦ made_behindStatement _)

theorem made_bodyStatements : Made rec none (bodyStatements Γ rec) :=
  .repeatUntil made_bodyStep false

theorem made_body (arguments : List Argument) (captured : List Variable) (outerSlots : Nat) :
    Made rec none (body Γ rec arguments captured outerSlots) :=
  .bind .here fun _ ↦ .step (.forM fun _ ↦ .declareArgument _) fun _ ↦
    .step (.takeOver _ _) fun _ ↦ .bind made_bodyStatements fun _ ↦ .blind (.leaveBody _ _)

theorem made_closureArguments : Made rec none (closureArguments Γ) := by
  refine .repeatUntil (fun _ ↦ .bind (.reading .acceptReference) fun x? ↦ ?_) []
  cases x? with
  | none => exact .pure _
  | some x => exact .bind (.annotated _) fun _ ↦ .pure _

theorem made_closureResult : Made rec none (closureResult Γ) :=
  .bind (.reading (.acceptSymbol _)) fun _ ↦
    .ite (.bind (.annotated _) fun _ ↦ .pure _) (.pure _)

theorem made_closure : Made rec none (closure Γ rec) :=
  .bind made_closureArguments fun _ ↦ .bind made_closureResult fun _ ↦
    .step (.emit _) fun _ ↦ .step .reserve fun _ ↦ .step .reserveCount fun _ ↦
    .look (fun _ _ hs ↦ by rw [hs.environment]) fun _ ↦ .step .frame fun _ ↦
    .bind (.inFrame (made_body _ _ _)) fun _ ↦ .step (.fillCount _) fun _ ↦
    .ite
      (.step .useSelf fun _ ↦ .step (.emitWord _) fun _ ↦ .step (.emitNumber _) fun _ ↦
        .step (.fill _ _) fun _ ↦ .pure _)
      (.step (.emitWord _) fun _ ↦ .step (.emitNumber _) fun _ ↦ .step (.fill _ _) fun _ ↦
        .pure _)

/-! ## Constructs -/

theorem made_ifChain : Made rec none (ifChain Γ rec) := by
  refine .step (.emit _) fun _ ↦ .step .reserveCount fun _ ↦ .bind made_branch fun _ ↦
    .bind (.repeatUntil (fun _ ↦ ?_) _) fun _ ↦ .bind (.accepts _) fun _ ↦ .ite ?_ ?_
  · exact .bind (.accepts _) fun _ ↦
      .ite (.step (.emit _) fun _ ↦ .bind made_branch fun _ ↦ .pure _) (.pure _)
  · exact .step (.emit _) fun _ ↦ .bind (.inScope made_conditionalBlock) fun _ ↦
      .step (.fillCount _) fun _ ↦ .step (.modifyEnvironment _) fun _ ↦ .pure _
  · exact .step (.fillCount _) fun _ ↦ .pure _

theorem made_repeatWhile : Made rec none (repeatWhile Γ rec) :=
  .step (.emit _) fun _ ↦ .bind (made_operandFitting _) fun _ ↦
    .bind (.inScope made_conditionalBlock) fun _ ↦ .pure _

theorem made_forIn : Made rec none (forIn Γ rec span) :=
  .step .reserve fun _ ↦ .bind .variableName fun _ ↦ .bind
    (.inScope <| .step .newSlot fun _ ↦ .step (.emitNumber _) fun _ ↦ .step .newSlot fun _ ↦
      .step (.emitNumber _) fun _ ↦ .bind (made_operandFitting _) fun _ ↦
      .step (.demand _ _ _) fun _ ↦ .step (.fillOpcode _ _) fun _ ↦ .step (.declare _) fun _ ↦
      made_conditionalBlock)
    fun _ ↦ .pure _

theorem made_returnValue : Made rec none (returnValue Γ rec span) := by
  refine .step .frame fun _ ↦ .step (.require _ _ _) fun _ ↦ .step (.modifyFrame _) fun _ ↦ ?_
  cases Γ.initializer? with
  | some initializer =>
    exact .step (.require _ _ _) fun _ ↦ .step (.emit _) fun _ ↦
      .bind (made_operandFitting _) fun _ ↦ .pure _
  | none =>
    exact .step (.require _ _ _) fun _ ↦ .step (.emit _) fun _ ↦
      .bind (made_operandFitting _) fun _ ↦ .step (.modifyFrame _) fun _ ↦ .pure _

theorem made_declareVariable : Made rec none (declareVariable Γ) :=
  .bind .variableName fun _ ↦ .step (.requireUndeclared _) fun _ ↦ .bind (.annotated _) fun _ ↦
    .step .newSlot fun _ ↦ .step (.declare _) fun _ ↦ .pure _

theorem made_assign : Made rec none (assign Γ rec) := by
  refine .bind .variableName fun _ ↦ .step (.resolve? _) fun found? ↦ ?_
  cases found? with
  | none => exact .bind (made_storeNew _) fun _ ↦ .step (.declare _) fun _ ↦ .pure _
  | some found =>
    exact .step (.lift _) fun _ ↦ .step (.modifyEnvironment _) fun _ ↦
      .step (.emitAccess _ _ _) fun _ ↦ .bind (made_operandFitting _) fun _ ↦
      .step (.modifyEnvironment _) fun _ ↦ .pure _

theorem made_declareFrozen : Made rec none (declareFrozen Γ rec) :=
  .bind .variableName fun _ ↦ .step (.requireUndeclared _) fun _ ↦
    .bind (made_storeNew _) fun _ ↦ .step (.declare _) fun _ ↦ .pure _

theorem made_stepVariable (construct : Construct) (action : Access) :
    Made rec none (stepVariable Γ construct action) :=
  .bind .variableName fun _ ↦ .step (.resolve? _) fun _ ↦ .step (.demand _ _ _) fun _ ↦
    .step (.lift _) fun _ ↦ .step (.require _ _ _) fun _ ↦ .step (.lift _) fun _ ↦
    .step (.modifyEnvironment _) fun _ ↦ .step (.emitAccess _ _ _) fun _ ↦ .pure _

theorem made_readVariable (x : String) : Made rec none (readVariable x span) :=
  .step (.resolve? _) fun _ ↦ .step (.demand _ _ _) fun _ ↦ .step (.lift _) fun _ ↦
    .step (.emitAccess _ _ _) fun _ ↦ .pure _

theorem made_concatenate : Made rec none (concatenate Γ rec) :=
  .step (.emit _) fun _ ↦ .step .reserve fun _ ↦ .bind (made_operandFitting _) fun _ ↦
    .bind (.repeatUntil (fun _ ↦ .next fun _ ↦
      .ite (.drop (.pure _)) (.bind (made_fitting _) fun _ ↦ .pure _)) 1) fun _ ↦
    .step (.fill _ _) fun _ ↦ .pure _

theorem made_emptyElement (collection : TypeId) (hint : Option Ty) :
    Made rec none (emptyElement collection hint span) := by
  unfold emptyElement
  split
  · exact .pure _
  · exact .step (.warn _ _) fun _ ↦ .pure _

theorem made_collection {opcode : Opcode} {id : TypeId} {part : Token → Analysis Ty}
    {hint : Option Ty} (hpart : ∀ token, Made rec (some token) (part token)) :
    Made rec none (collection Γ opcode id part hint span) := by
  refine .step (.emit _) fun _ ↦ .step .reserveCount fun _ ↦
    .bind (.repeatUntil (fun _ ↦ .next fun token ↦
      .ite (.drop (.pure _)) (.bind (hpart token) fun _ ↦ .pure _)) none) fun common? ↦
    .step (.fillCount _) fun _ ↦ ?_
  cases common? with
  | none => exact .bind (made_emptyElement id hint) fun _ ↦ .pure _
  | some element => exact .bind (.pure element) fun _ ↦ .pure _

theorem made_dictionary (hint : Option Ty) : Made rec none (dictionary Γ rec hint span) :=
  made_collection fun _ ↦ .bind (made_fitting _) fun _ ↦ made_operand

theorem made_enumValue : Made rec none (enumValue Γ span) :=
  .step .reserve fun _ ↦ .bind (.annotated _) fun _ ↦ .step (.require _ _ _) fun _ ↦
    .step (.require _ _ _) fun _ ↦ .bind .name fun _ ↦ .step (.demand _ _ _) fun _ ↦
    .step (.ite (.bind (.fillOpcode _ _) fun _ ↦ .emitWord _)
      (.bind (.fillOpcode _ _) fun _ ↦ .emitWide _)) fun _ ↦ .pure _

theorem made_selfReference : Made rec none (selfReference Γ span) :=
  .step (.require _ _ _) fun _ ↦ .step .frame fun _ ↦ .step (.require _ _ _) fun _ ↦
    .step .requireComplete fun _ ↦ .step .useSelf fun _ ↦ .step (.emit _) fun _ ↦ .pure _

theorem made_instantiate : Made rec none (instantiate Γ rec span) :=
  .step (.emit _) fun _ ↦ .bind (.annotated _) fun _ ↦ .step (.demand _ _ _) fun _ ↦
    .step (.require _ _ _) fun _ ↦ .step (.emitWord _) fun _ ↦ .bind .name fun _ ↦
    .step (.demand _ _ _) fun _ ↦ .step (.require _ _ _) fun _ ↦ .step (.emitNumber _) fun _ ↦
    .step (.require _ _ _) fun _ ↦ .bind (made_arguments _) fun _ ↦ .pure _

theorem made_superInitializer : Made rec none (superInitializer Γ rec span) :=
  .step (.require _ _ _) fun _ ↦ .step (.demand _ _ _) fun _ ↦ .step .frame fun _ ↦
    .step (.require _ _ _) fun _ ↦ .step .frame fun _ ↦ .step (.require _ _ _) fun _ ↦
    .step .requireComplete fun _ ↦ .step (.emit _) fun _ ↦ .step (.emitNumber _) fun _ ↦
    .bind .name fun _ ↦ .step (.demand _ _ _) fun _ ↦ .step (.emitNumber _) fun _ ↦
    .step (.require _ _ _) fun _ ↦ .bind (made_arguments _) fun _ ↦
    .step (.modifyFrame _) fun _ ↦ .pure _

theorem made_cast : Made rec none (cast Γ rec span) := by
  refine .step .reserve fun _ ↦ .bind (made_operandFitting _) fun _ ↦
    .bind (.annotated _) fun (target, _) ↦ .optional (.warn _ _) ?_
  dsimp only
  split
  · exact .step (.demand _ _ _) fun _ ↦ .step (.require _ _ _) fun _ ↦
      .step (.fillOpcode _ _) fun _ ↦ .step (.emitNumber _) fun _ ↦ .pure _
  · exact .step (.demand _ _ _) fun _ ↦ .step (.fillOpcode _ _) fun _ ↦
      .step (.emitNumber _) fun _ ↦ .pure _
  · exact .step (.fillOpcode _ _) fun _ ↦ .pure _
  · exact .step (.fillOpcode _ _) fun _ ↦ .pure _
  · exact .step (.fillOpcode _ _) fun _ ↦ .pure _
  · exact .step (.fillOpcode _ _) fun _ ↦ .pure _
  · exact .bind (.fail _) fun _ ↦ .pure _

theorem made_unwrap : Made rec none (unwrap Γ rec span) :=
  .step (.emit _) fun _ ↦ .bind made_operand fun _ ↦ .step (.require _ _ _) fun _ ↦ .pure _

theorem made_call (method : Symbol) : Made rec none (call Γ rec method span) := by
  refine .step .reserve fun _ ↦ .bind made_operandAndSpan fun _ ↦
    .step (.require _ _ _) fun _ ↦ ?_
  dsimp only
  split
  · exact .step (.demand _ _ _) fun _ ↦ .step (.demand _ _ _) fun _ ↦
      .step (.fillOpcode _ _) fun _ ↦ .step (.emitNumber _) fun _ ↦ .step (.emitNumber _) fun _ ↦
      made_callMember _ _
  · exact .step (.demand _ _ _) fun _ ↦ .step (.fillOpcode _ _) fun _ ↦
      .step (.emitNumber _) fun _ ↦ made_callMember _ _
  · refine .step (.demand _ _ _) fun operation ↦ .step (.fillOpcode _ _) fun _ ↦ ?_
    cases operation.operand? with
    | none => exact .pure _
    | some operand => exact .bind (made_operandFitting _) fun _ ↦ .pure _

theorem made_optionalChain : Made rec none (optionalChain Γ rec span) :=
  .step (.emit _) fun _ ↦ .step .reserveCount fun _ ↦ .bind .name fun _ ↦
    .bind made_operand fun _ ↦ .step (.require _ _ _) fun _ ↦ .step (.demand _ _ _) fun _ ↦
    .step (.emitNumber _) fun _ ↦ .step (.fillCount _) fun _ ↦
    .bind (made_callMember _ _) fun _ ↦ .pure _

theorem made_callClassMethod : Made rec none (callClassMethod Γ rec) :=
  .step (.emit _) fun _ ↦ .bind .name fun _ ↦ .bind (.annotated _) fun _ ↦
    .optional (.warn _ _) (.step (.demand _ _ _) fun _ ↦ .step (.emitWord _) fun _ ↦
      .step (.demand _ _ _) fun _ ↦ .step (.emitNumber _) fun _ ↦ made_callMember _ _)

theorem made_callSuperMethod : Made rec none (callSuperMethod Γ rec span) :=
  .bind .name fun _ ↦ .step (.require _ _ _) fun _ ↦ .step (.demand _ _ _) fun _ ↦
    .step (.emit _) fun _ ↦ .step (.emitNumber _) fun _ ↦ .step (.demand _ _ _) fun _ ↦
    .step (.emitNumber _) fun _ ↦ .step .useSelf fun _ ↦ made_callMember _ _

theorem made_captureMethod : Made rec none (captureMethod Γ rec) :=
  .bind .name fun _ ↦ .step (.emit _) fun _ ↦ .bind made_operandAndSpan fun _ ↦
    .step (.require _ _ _) fun _ ↦ .step (.demand _ _ _) fun _ ↦ .step (.emitNumber _) fun _ ↦
    .step (.require _ _ _) fun _ ↦ .pure _

theorem made_invoke : Made rec none (invoke Γ rec) :=
  .step (.emit _) fun _ ↦ .bind made_operandAndSpan fun _ ↦ .step (.require _ _ _) fun _ ↦
    .bind (made_arguments _) fun _ ↦ .pure _

theorem made_isNothingness : Made rec none (isNothingness Γ rec) :=
  .step (.emit _) fun _ ↦ .bind made_operand fun _ ↦ .pure _

theorem made_identical : Made rec none (identical Γ rec) :=
  .step (.emit _) fun _ ↦ .bind (made_operandFitting _) fun _ ↦
    .bind (made_operandFitting _) fun _ ↦ .pure _

theorem made_construct (token : Token) (symbol : Symbol) (hint : Option Ty) :
    Made rec none (construct Γ rec token symbol hint) := by
  unfold construct
  generalize Construct.ofSymbol symbol = asked
  cases asked with
  | declare => exact made_declareVariable
  | assign => exact made_assign
  | declareFrozen => exact made_declareFrozen
  | increment | decrement => exact made_stepVariable _ _
  | concatenate => exact made_concatenate
  | list => exact made_collection fun _ ↦ .call
  | dictionary => exact made_dictionary hint
  | ifBranch => exact made_ifChain
  | repeatWhile => exact made_repeatWhile
  | forIn => exact made_forIn
  | returning => exact made_returnValue
  | selfReference => exact made_selfReference
  | enumValue => exact made_enumValue
  | instantiate => exact made_instantiate
  | nothingness => exact .step (.emit _) fun _ ↦ .pure _
  | isNothingness => exact made_isNothingness
  | identical => exact made_identical
  | superInitializer => exact made_superInitializer
  | cast => exact made_cast
  | unwrap => exact made_unwrap
  | optionalChain => exact made_optionalChain
  | classMethod => exact made_callClassMethod
  | captureMethod => exact made_captureMethod
  | invoke => exact made_invoke
  | superMethod => exact made_callSuperMethod
  | blockOpen => exact made_closure
  | method method => exact made_call method
  | elseIfBranch | elseBranch | blockClose | collectionEnd | dynamicClass => exact .fail _

/-- **What expressions are made of.** An expression takes its line from its first token. Everything
behind that is made of blind steps, readers and expressions. -/
theorem exists_made (Γ : Setting) (token : Token) (hint : Option Ty) :
    ∃ m, Made rec none m
      ∧ expressionStep rec Γ token hint = (setLine token.span.line >>= fun _ ↦ m) := by
  refine ⟨_, ?_, rfl⟩
  generalize token.lexeme = lexeme
  cases lexeme with
  | string content => exact .blind (.stringLiteral content)
  | boolean value => exact .step (.emit _) fun _ ↦ .pure _
  | integer value =>
    exact .ite (.step (.emit _) fun _ ↦ .step (.emitWide _) fun _ ↦ .pure _)
      (.step (.emit _) fun _ ↦ .step (.emitWord _) fun _ ↦ .pure _)
  | double bits => exact .step (.emit _) fun _ ↦ .step (.emitWide _) fun _ ↦ .pure _
  | symbol value => exact .step (.emit _) fun _ ↦ .step (.emitWord _) fun _ ↦ .pure _
  | reference x => exact made_readVariable x
  | comment _ | argumentsOpen | argumentsClose => exact .fail _
  | identifier symbol => exact .optional (.modifyFrame _) (made_construct token symbol hint)

end

end Pictograph
