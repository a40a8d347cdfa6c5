import Pictograph.Proofs.Analysis.Touches
import Pictograph.Proofs.Catalogue.PairedAnnotations
import Pictograph.Proofs.Scope.Transcription

/-!
# The analysis of a transcribed body, step by step

A body and its transcription are analysed side by side. The states correspond all the way: the same
words are written, perhaps for other lines; the same strings are in the table; variables and
warnings correspond. What a construct decides, it decides by parts of the state that are equal.

## Main definitions

* `State.Alike`: states that correspond.
* `Transcription.analysis`: two runs of an analysis.
* `Analysis.Turn`: what two repetitions do in one step.

## Main results

* `Analysis.agrees_repeatUntil`: repetitions of steps that correspond end, and correspond.
* `Analysis.agrees_inFrame`: analyses that correspond do so in frames of their own.
-/

namespace Pictograph

variable {τ : Transcription}

/-! ## States -/

/-- A word of code and the one that it corresponds to. -/
structure Cell.Alike (τ : Transcription) (c c' : Cell) : Prop where
  word : c'.word = c.word
  line : τ.line c.line c'.line
  mark : c'.mark = c.mark

/-- Code that differs in its lines. -/
def Chunk.Alike (τ : Transcription) (c c' : Chunk) : Prop :=
  List.Forall₂ (Cell.Alike τ) c.cells.toList c'.cells.toList

/-- Code being written that differs in its lines. -/
structure Assembler.Alike (τ : Transcription) (a a' : Assembler) : Prop where
  chunk : a.chunk.Alike τ a'.chunk
  holes : a'.holes = a.holes
  line : τ.line a.line a'.line

/-- A warning and the one that it corresponds to. -/
structure Warning.Alike (τ : Transcription) (w w' : Warning) : Prop where
  remark : w'.remark = w.remark.rename τ.name
  span : τ.place w.span w'.span

/-- Sessions with the same strings and with warnings that correspond. In the other session they come
behind those that were given before. -/
structure Session.Alike (τ : Transcription) (s s' : Session) : Prop where
  strings : s'.strings = s.strings
  warnings : ∃ added, s'.warnings.toList = τ.earlier ++ added
    ∧ List.Forall₂ (Warning.Alike τ) s.warnings.toList added

/-- The states of two analyses that correspond. -/
structure State.Alike (τ : Transcription) (s s' : State) : Prop where
  cursor : s.cursor.Alike τ s'.cursor
  assembler : s.assembler.Alike τ s'.assembler
  session : s.session.Alike τ s'.session
  environment : s.environment.Alike τ s'.environment
  frame : s'.frame = s.frame

/-- Two runs of an analysis. -/
def Transcription.analysis (τ : Transcription) : Comparison State where
  fault := Fault.Alike τ
  state := State.Alike τ
  size s := s.cursor.remaining

/-- Runs that correspond end in states that do. -/
theorem Analysis.alike_final {α β : Type} {V : Prop → α → β → Prop} {start : Nat}
    {r : EStateM.Result Fault State α} {r' : EStateM.Result Fault State β}
    (h : τ.analysis.Ends V start r r') : (final r).Alike τ (final r') := by
  cases h with
  | ok ht => exact ht
  | error _ ht => exact ht

/-- A run that fails corresponds to one that does. -/
theorem Analysis.exists_alike_fault {α β : Type} {V : Prop → α → β → Prop} {start : Nat}
    {r : EStateM.Result Fault State α} {fault : Fault} {s : State}
    (h : τ.analysis.Ends V start r (.error fault s : EStateM.Result Fault State β)) :
    ∃ e : Fault, e.Alike τ fault := by
  cases h with
  | error he => exact ⟨_, he⟩

/-! ### Code -/

theorem forall₂_set {α β : Type} {R : α → β → Prop} {l : List α} {l' : List β} {a : α} {b : β}
    (h : List.Forall₂ R l l') (hab : R a b) (i : Nat) :
    List.Forall₂ R (l.set i a) (l'.set i b) := by
  induction h generalizing i with
  | nil => exact .nil
  | cons hcd hl ih =>
    cases i with
    | zero => exact .cons hab hl
    | succ i => exact .cons hcd (ih i)

namespace Chunk.Alike

variable {c c' : Chunk}

theorem size_eq (h : c.Alike τ c') : c'.size = c.size := by
  rw [size, size, ← Array.length_toList, ← Array.length_toList, h.length_eq]

theorem push {cell cell' : Cell} (h : c.Alike τ c') (hcell : cell.Alike τ cell') :
    Chunk.Alike τ ⟨c.cells.push cell⟩ ⟨c'.cells.push cell'⟩ := by
  rw [Chunk.Alike, Array.toList_push, Array.toList_push]
  exact List.rel_append h (.cons hcell .nil)

theorem pushOpcode (h : c.Alike τ c') (op : Opcode) {line line' : Nat} (hline : τ.line line line') :
    (c.pushOpcode op line).Alike τ (c'.pushOpcode op line') :=
  h.push ⟨rfl, hline, rfl⟩

theorem pushWord (h : c.Alike τ c') (w : UInt32) {line line' : Nat} (hline : τ.line line line') :
    (c.pushWord w line).Alike τ (c'.pushWord w line') :=
  h.push ⟨rfl, hline, rfl⟩

/-- A word is changed in both chunks or in neither. -/
theorem change {f : Cell → Cell} (h : c.Alike τ c') (offset : Nat)
    (hf : ∀ cell cell' : Cell, cell.Alike τ cell' → (f cell).Alike τ (f cell')) :
    Option.Rel (Chunk.Alike τ)
      (if h : offset < c.cells.size then some ⟨c.cells.set offset (f c.cells[offset])⟩ else none)
      (if h : offset < c'.cells.size then some ⟨c'.cells.set offset (f c'.cells[offset])⟩
        else none) := by
  have hsize : c'.cells.size = c.cells.size := h.size_eq
  by_cases hlt : offset < c.cells.size
  · have hlt' : offset < c'.cells.size := by rwa [hsize]
    rw [dif_pos hlt, dif_pos hlt']
    refine .some ?_
    rw [Chunk.Alike, Array.toList_set, Array.toList_set]
    exact forall₂_set h (hf _ _ (h.get hlt hlt')) offset
  · rw [dif_neg hlt, dif_neg (hsize ▸ hlt)]
    exact .none

theorem patch? (h : c.Alike τ c') (offset : Nat) (w : UInt32) :
    Option.Rel (Chunk.Alike τ) (c.patch? offset w) (c'.patch? offset w) :=
  h.change (f := ({ · with word := w })) offset fun _ _ hcell ↦ { hcell with word := rfl }

theorem patchOpcode? (h : c.Alike τ c') (offset : Nat) (op : Opcode) :
    Option.Rel (Chunk.Alike τ) (c.patchOpcode? offset op) (c'.patchOpcode? offset op) :=
  h.change (f := ({ · with word := op.word, mark := some op })) offset fun _ _ hcell ↦
    { hcell with word := rfl, mark := rfl }

end Chunk.Alike

namespace Assembler.Alike

variable {a a' : Assembler}

theorem opcode (h : a.Alike τ a') (op : Opcode) : (a.opcode op).Alike τ (a'.opcode op) :=
  { h with chunk := h.chunk.pushOpcode op h.line }

theorem word (h : a.Alike τ a') (w : UInt32) : (a.word w).Alike τ (a'.word w) :=
  { h with chunk := h.chunk.pushWord w h.line }

theorem wide (h : a.Alike τ a') (value : UInt64) : (a.wide value).Alike τ (a'.wide value) :=
  { h with chunk := (h.chunk.pushWord _ h.line).pushWord _ h.line }

theorem appendHole (h : a.Alike τ a') : a.appendHole.Alike τ a'.appendHole where
  chunk := h.chunk.pushWord 0 h.line
  holes := by
    change a'.chunk.size :: a'.holes = a.chunk.size :: a.holes
    rw [h.chunk.size_eq, h.holes]
  line := h.line

/-- A reservation is closed on both sides or on neither. -/
theorem close {write write' : Chunk → Nat → Option Chunk} (h : a.Alike τ a') (offset : Nat)
    (hwrite : ∀ c c' : Chunk, c.Alike τ c' →
      Option.Rel (Chunk.Alike τ) (write c offset) (write' c' offset)) :
    Option.Rel (Assembler.Alike τ) (a.close offset write) (a'.close offset write') := by
  rw [Assembler.close, Assembler.close, h.holes]
  cases a.holes with
  | nil => exact .none
  | cons innermost holes =>
    dsimp only
    split
    · exact rel_map_both (hwrite _ _ h.chunk) fun _ _ hc ↦ ⟨hc, rfl, h.line⟩
    · exact .none

theorem fill? (h : a.Alike τ a') (hole : Hole) (w : UInt32) :
    Option.Rel (Assembler.Alike τ) (a.fill? hole w) (a'.fill? hole w) :=
  h.close _ fun _ _ hc ↦ hc.patch? _ w

theorem fillOpcode? (h : a.Alike τ a') (hole : Hole) (op : Opcode) :
    Option.Rel (Assembler.Alike τ) (a.fillOpcode? hole op) (a'.fillOpcode? hole op) :=
  h.close _ fun _ _ hc ↦ hc.patchOpcode? _ op

theorem fillCount? (h : a.Alike τ a') (hole : CountHole) :
    Option.Rel (Assembler.Alike τ) (a.fillCount? hole) (a'.fillCount? hole) := by
  rw [Assembler.fillCount?, Assembler.fillCount?, h.chunk.size_eq]
  exact h.close _ fun _ _ hc ↦ hc.patch? _ _

end Assembler.Alike

/-! ## Steps -/

namespace Analysis

open Comparison

variable {α β γ δ : Type} {n : Nat}

/-! ### Reading -/

theorem matches_reading {V : Prop → α → β → Prop} {r : Reading α} {r' : Reading β}
    (h : τ.reading.Matches n V r r') : τ.analysis.Matches n V (reading r) (reading r') := by
  intro s s' hs hlt
  have hend := h _ _ hs.cursor hlt
  rw [reading, reading]
  generalize r s.cursor = x, r' s'.cursor = x' at hend ⊢
  cases hend with
  | ok ht hle hv => exact .ok { hs with cursor := ht } hle hv
  | error he ht => exact .error he { hs with cursor := ht }

theorem reads_next : τ.analysis.Reads n (Token.Alike τ) next next :=
  matches_reading Reading.reads_next

theorem reads_name : τ.analysis.Reads n (Reading.NamesAlike τ) name name :=
  matches_reading Reading.reads_name

theorem reads_variableName :
    τ.analysis.Reads n (Reading.VariablesAlike τ) variableName variableName :=
  matches_reading Reading.reads_variableName

/-- A token is accepted in both bodies or in neither, and is read then. -/
theorem matches_accepts (construct : Construct) :
    τ.analysis.Matches n (fun read (a b : Bool) ↦ a = b ∧ (a → read)) (accepts construct)
      (accepts construct) := by
  rw [accepts, map_eq_pure_bind]
  have hread := Reading.matches_acceptConstruct (τ := τ) (n := n) construct
  refine Matches.bind (matches_reading hread) ?_
  rintro read token? token?' ⟨hrel, hsome⟩
  exact .pure ⟨Bool.eq_iff_iff.mpr (isSome_iff_of_rel hrel), fun h ↦ .inl (hsome h)⟩

theorem agrees_accepts (construct : Construct) :
    τ.analysis.Agrees n Eq (accepts construct) (accepts construct) :=
  (matches_accepts construct).mono (Nat.le_refl _) fun _ _ _ ⟨h, _⟩ ↦ h

theorem agrees_here : τ.analysis.Agrees n τ.place here here :=
  .look fun _ _ hs ↦ .pure hs.cursor.here

theorem reads_annotated (Γ : Setting) (dynamism : Dynamism) :
    τ.analysis.Reads n Eq ( annotation Γ dynamism) ( annotation Γ dynamism) :=
  matches_reading (Γ.catalogue.reads_annotated _ _ _)

/-! ### Writing -/

theorem agrees_assemble {f f' : Assembler → Assembler}
    (hf : ∀ a a' : Assembler, a.Alike τ a' → (f a).Alike τ (f' a')) :
    τ.analysis.Agrees n Eq (assemble f) (assemble f') :=
  fun _ _ hs _ ↦ .ok { hs with assembler := hf _ _ hs.assembler } (Nat.le_refl _) rfl

theorem agrees_setLine {line line' : Nat} (h : τ.line line line') :
    τ.analysis.Agrees n Eq (setLine line) (setLine line') :=
  agrees_assemble fun _ _ ha ↦ { ha with line := h }

theorem agrees_emit (op : Opcode) : τ.analysis.Agrees n Eq (emit op) (emit op) :=
  agrees_assemble fun _ _ ha ↦ ha.opcode op

theorem agrees_emitWord (w : UInt32) : τ.analysis.Agrees n Eq (emitWord w) (emitWord w) :=
  agrees_assemble fun _ _ ha ↦ ha.word w

theorem agrees_emitNumber (k : Nat) : τ.analysis.Agrees n Eq (emitNumber k) (emitNumber k) :=
  agrees_emitWord _

theorem agrees_emitWide (value : UInt64) :
    τ.analysis.Agrees n Eq (emitWide value) (emitWide value) :=
  agrees_assemble fun _ _ ha ↦ ha.wide value

theorem agrees_reserve : τ.analysis.Agrees n Eq reserve reserve := by
  intro s s' hs _
  refine .ok { hs with assembler := hs.assembler.appendHole } (Nat.le_refl _) ?_
  exact congrArg Hole.mk hs.assembler.chunk.size_eq.symm

theorem agrees_reserveCount : τ.analysis.Agrees n Eq reserveCount reserveCount := by
  intro s s' hs _
  refine .ok { hs with assembler := hs.assembler.appendHole } (Nat.le_refl _) ?_
  exact congrArg CountHole.mk hs.assembler.chunk.size_eq.symm

theorem agrees_filling {f f' : Assembler → Option Assembler}
    (hf : ∀ a a' : Assembler, a.Alike τ a' → Option.Rel (Assembler.Alike τ) (f a) (f' a')) :
    τ.analysis.Agrees n Eq (filling f) (filling f') := by
  intro s s' hs _
  have hfilled := hf _ _ hs.assembler
  rw [filling, filling]
  generalize f s.assembler = a?, f' s'.assembler = a?' at hfilled ⊢
  cases hfilled with
  | none => exact .error .misfilled hs
  | some ha => exact .ok { hs with assembler := ha } (Nat.le_refl _) rfl

theorem agrees_fill (hole : Hole) (w : UInt32) :
    τ.analysis.Agrees n Eq (fill hole w) (fill hole w) :=
  agrees_filling fun _ _ ha ↦ ha.fill? hole w

theorem agrees_fillOpcode (hole : Hole) (op : Opcode) :
    τ.analysis.Agrees n Eq (fillOpcode hole op) (fillOpcode hole op) :=
  agrees_filling fun _ _ ha ↦ ha.fillOpcode? hole op

theorem agrees_fillCount (hole : CountHole) :
    τ.analysis.Agrees n Eq (fillCount hole) (fillCount hole) :=
  agrees_filling fun _ _ ha ↦ ha.fillCount? hole

/-! ### The session -/

theorem agrees_warn (remark : Remark) {p p' : Span} (hp : τ.place p p') :
    τ.analysis.Agrees n Eq (warn remark p) (warn (remark.rename τ.name) p') := by
  intro s s' hs _
  obtain ⟨added, hadded, hwarnings⟩ := hs.session.warnings
  have hpush : (s'.session.warnings.push ⟨remark.rename τ.name, p'⟩).toList
      = τ.earlier ++ (added ++ [⟨remark.rename τ.name, p'⟩]) := by
    rw [Array.toList_push, hadded, List.append_assoc]
  refine .ok { hs with session := ⟨hs.session.strings, _, hpush, ?_⟩ } (Nat.le_refl _) rfl
  change List.Forall₂ _ (s.session.warnings.push _).toList _
  rw [Array.toList_push]
  exact List.rel_append hwarnings (.cons ⟨rfl, hp⟩ .nil)

theorem agrees_intern (content : String) :
    τ.analysis.Agrees n Eq (intern content) (intern content) := by
  intro s s' hs _
  have hstrings := hs.session.strings
  refine .ok { hs with session := { hs.session with strings := ?_ } } (Nat.le_refl _) ?_
  · exact congrArg (fun strings ↦ (strings.intern content).2) hstrings
  · exact congrArg (fun strings ↦ (strings.intern content).1) hstrings.symm

/-! ### Variables -/

theorem agrees_resolve? (x : String) :
    τ.analysis.Agrees n (Option.Rel fun y y' ↦ y.1 = y'.1
      ∧ y.2.Alike τ (Environment.Alike.placeOf τ y.1) y'.2) (resolve? x) (resolve? (τ.name x)) :=
  .look fun _ _ hs ↦ .pure (hs.environment.resolve? x)

theorem agrees_modifyEnvironment {f f' : Environment → Environment}
    (hf : ∀ e e' : Environment, e.Alike τ e' → (f e).Alike τ (f' e')) :
    τ.analysis.Agrees n Eq (modifyEnvironment f) (modifyEnvironment f') :=
  fun _ _ hs _ ↦ .ok { hs with environment := hf _ _ hs.environment } (Nat.le_refl _) rfl

theorem agrees_declare {v v' : Variable} (hv : v.Alike τ τ.place v') :
    τ.analysis.Agrees n Eq (declare v) (declare v') := by
  intro s s' hs _
  have hdeclare := hs.environment.declare hv
  rw [declare, declare]
  generalize s.environment.declare v = x, s'.environment.declare v' = x' at hdeclare ⊢
  cases hdeclare with
  | ok he => exact .ok { hs with environment := he } (Nat.le_refl _) rfl
  | error he => exact .error he hs

/-! ### The frame -/

theorem agrees_modifyFrame (f : Frame → Frame) :
    τ.analysis.Agrees n Eq (modifyFrame f) (modifyFrame f) :=
  fun _ _ hs _ ↦ .ok { hs with frame := congrArg f hs.frame } (Nat.le_refl _) rfl

theorem agrees_frame : τ.analysis.Agrees n Eq frame frame :=
  .look fun _ _ hs ↦ .pure hs.frame.symm

theorem agrees_useSelf : τ.analysis.Agrees n Eq useSelf useSelf := agrees_modifyFrame _

/-! ### Checks -/

variable {p p' : Span}

theorem agrees_fail {V : α → β → Prop} {cause cause' : Cause} (hc : cause.Alike τ.name cause')
    (hp : τ.place p p') : τ.analysis.Agrees n V (fail cause p) (fail cause' p') :=
  .throw (.diagnosed hc hp)

theorem agrees_require (condition : Bool) {cause cause' : Cause} (hc : cause.Alike τ.name cause')
    (hp : τ.place p p') :
    τ.analysis.Agrees n Eq (require condition cause p) (require condition cause' p') :=
  .ite Iff.rfl (.pure rfl) (agrees_fail hc hp)

theorem agrees_demand {V : α → β → Prop} {a? : Option α} {b? : Option β} {cause cause' : Cause}
    (h : Option.Rel V a? b?) (hc : cause.Alike τ.name cause') (hp : τ.place p p') :
    τ.analysis.Agrees n V (demand a? cause p) (demand b? cause' p') := by
  cases h with
  | none => exact agrees_fail hc hp
  | some hab => exact .pure hab

/-- What is demanded is the same in both runs. -/
theorem agrees_demand_same (a? : Option α) {cause cause' : Cause} (hc : cause.Alike τ.name cause')
    (hp : τ.place p p') :
    τ.analysis.Agrees n Eq (demand a? cause p) (demand a? cause' p') := by
  cases a? with
  | none => exact agrees_fail hc hp
  | some a => exact .pure rfl

theorem agrees_lift {V : α → β → Prop} {x : Except Fault α} {x' : Except Fault β}
    (h : τ.Outcomes V x x') : τ.analysis.Agrees n V (lift x) (lift x') := by
  cases h with
  | ok hab => exact .pure hab
  | error he => exact .throw he

theorem agrees_requireUndeclared (x : String) (hp : τ.place p p') :
    τ.analysis.Agrees n Eq (requireUndeclared x p) (requireUndeclared (τ.name x) p') := by
  refine .look fun s s' hs ↦ ?_
  rw [hs.environment.current.contains_eq]
  exact agrees_require _ (.renamed (.redeclaration x)) hp

theorem agrees_requireComplete (Γ : Setting) (hp : τ.place p p') :
    τ.analysis.Agrees n Eq (requireComplete Γ p) (requireComplete Γ p') :=
  .ite Iff.rfl (.look fun _ _ hs ↦ agrees_lift (hs.environment.requireComplete hp)) (.pure rfl)

theorem agrees_requireSlot (Γ : Setting) (slot : Nat) (hp : τ.place p p') :
    τ.analysis.Agrees n Eq (requireSlot Γ slot p) (requireSlot Γ slot p') :=
  agrees_require _ (.renamed _) hp

theorem agrees_newSlot (Γ : Setting) (hp : τ.place p p') :
    τ.analysis.Agrees n Eq (newSlot Γ p) (newSlot Γ p') := by
  refine agrees_frame.bind_same fun f ↦ (agrees_requireSlot Γ _ hp).bind_same fun _ ↦ ?_
  exact (agrees_modifyFrame _).bind_same fun _ ↦ .pure rfl

theorem agrees_emitAccess (storage : Storage) (action : Access) (slot : Nat) :
    τ.analysis.Agrees n Eq (emitAccess storage action slot) (emitAccess storage action slot) := by
  refine (agrees_emit _).bind_same fun _ ↦ ?_
  exact .optional Iff.rfl agrees_useSelf (agrees_emitNumber _)

/-! ## Repetitions -/

/-- What two repetitions do in one step: both go on, and have read a token then, or both end. -/
inductive Turn (U : α → β → Prop) (V : γ → δ → Prop) (read : Prop) : α ⊕ γ → β ⊕ δ → Prop
  | again {a : α} {b : β} (hread : read) (h : U a b) : Turn U V read (.inl a) (.inl b)
  | done {c : γ} {d : δ} (h : V c d) : Turn U V read (.inr c) (.inr d)

/-- A step that reads anyway. -/
theorem matches_turn {U : α → β → Prop} {V : γ → δ → Prop} {m : Analysis (α ⊕ γ)}
    {m' : Analysis (β ⊕ δ)} (h : τ.analysis.Reads n (Turn U V True) m m') :
    τ.analysis.Matches n (fun read ↦ Turn U V read) m m' := by
  refine h.mono (Nat.le_refl _) ?_
  rintro read x y ⟨hread, hturn⟩
  cases hturn with
  | again _ hu => exact .again hread hu
  | done hv => exact .done hv

theorem agrees_repeating {U : α → β → Prop} {V : γ → δ → Prop} {step : α → Analysis (α ⊕ γ)}
    {step' : β → Analysis (β ⊕ δ)}
    (h : ∀ a b, U a b → τ.analysis.Matches n (fun read ↦ Turn U V read) (step a) (step' b))
    (fuel : Nat) {a : α} {b : β} (hab : U a b) :
    τ.analysis.Agrees (min n fuel) V (repeating step fuel a) (repeating step' fuel b) := by
  induction fuel generalizing a b with
  | zero =>
    rw [Nat.min_zero]
    exact .zero
  | succ fuel ih =>
    intro s s' hs hlt
    refine (h a b hab s s' hs (by omega)).bind fun t t' x y ht hle hturn ↦ ?_
    cases hturn with
    | again hread hu => exact ih hu t t' ht (by omega)
    | done hv => exact .ok ht (Nat.le_refl _) hv

/-- **Repetitions of steps that correspond end, and correspond.** -/
theorem agrees_repeatUntil {U : α → β → Prop} {V : γ → δ → Prop} {step : α → Analysis (α ⊕ γ)}
    {step' : β → Analysis (β ⊕ δ)}
    (h : ∀ a b, U a b → τ.analysis.Matches n (fun read ↦ Turn U V read) (step a) (step' b))
    {a : α} {b : β} (hab : U a b) :
    τ.analysis.Agrees n V (repeatUntil step a) (repeatUntil step' b) := by
  intro s s' hs hlt
  have hlt' : s.cursor.remaining < min n (s.cursor.remaining + 1) :=
    Nat.lt_min.mpr ⟨hlt, Nat.lt_succ_self _⟩
  have hend := agrees_repeating h (s.cursor.remaining + 1) hab s s' hs hlt'
  change τ.analysis.Ends _ _ (repeating step (s.cursor.remaining + 1) a s)
    (repeating step' (s'.cursor.remaining + 1) b s')
  rw [hs.cursor.remaining_eq]
  exact hend

/-! ## Frames -/

/-- **Analyses that correspond do so in frames of their own.** -/
theorem agrees_inFrame {V : α → β → Prop} {m : Analysis α} {m' : Analysis β}
    (hm : τ.analysis.Agrees n V m m') : τ.analysis.Agrees n V (inFrame m) (inFrame m') := by
  intro s s' hs hlt
  have hinner := hm { s with environment := .start s.environment.fields, frame := {} }
    { s' with environment := .start s'.environment.fields, frame := {} }
    { hs with environment := .start hs.environment.fields, frame := rfl } hlt
  rw [inFrame_eq, inFrame_eq]
  generalize m _ = r, m' _ = r' at hinner ⊢
  cases hinner with
  | error he ht => exact .error he ht
  | ok ht hle hv =>
    have houter := hs.environment
    exact .ok { ht with
      environment := ⟨houter.current, houter.outer, ht.environment.fields⟩
      frame := hs.frame } hle hv

end Analysis

end Pictograph
