import Pictograph.Proofs.Analysis.Query
import Pictograph.Proofs.Catalogue.Faults
import Pictograph.Proofs.Code.Offsets

/-!
# What a run does to reserved words

The words that an analysis reserves and fills on its way, in the order in which it happens. They are
told also of a run that fails: they end where it broke off.

The bookkeeping of the assembler is not part of this, so it can tell whether the bookkeeping is in
order: going through the reservations and fillings with a stack finds each filling at the top of the
stack, or else the analysis has stopped with a fault.

## Main definitions

* `Touch`: a reservation or a filling.
* `Does`: a run of an analysis does this to reserved words.
* `Touch.replay?`: goes through reservations and fillings with a stack.

## Main results

* `Does.touches`: what a run does that does not stop with a misfilled word keeps the order of a
  stack, and ends with the reservations that are open in the end.
* `Touch.perm_of_replay?`: what was reserved and is not open in the end was filled once.
-/

namespace Pictograph

/-- What happens to a reserved word. -/
inductive Touch where
  /-- The word at an offset is reserved. -/
  | reserve (offset : Nat)
  /-- The reserved word at an offset is filled. -/
  | fill (offset : Nat)

/-! ## Replaying

Reservations are nested if each filling is of the word that was reserved last and is not filled yet.
-/

namespace Touch

/-- The word that is reserved. -/
def reserved? : Touch → Option Nat
  | reserve offset => some offset
  | fill _ => none

/-- The word that is filled. -/
def filled? : Touch → Option Nat
  | reserve _ => none
  | fill offset => some offset

/-- The words that are reserved, in order. -/
def reserved (touches : List Touch) : List Nat := touches.filterMap reserved?

/-- The words that are filled, in order. -/
def filled (touches : List Touch) : List Nat := touches.filterMap filled?

/-- Goes through reservations and fillings with the stack of the words that are reserved and not yet
filled, the innermost first. There is no result if a word is filled that is not the innermost. -/
def replay? : (opened : List Nat) → List Touch → Option (List Nat)
  | opened, [] => some opened
  | opened, reserve offset :: touches => replay? (offset :: opened) touches
  | innermost :: opened, fill offset :: touches =>
    if innermost = offset then replay? opened touches else none
  | [], fill _ :: _ => none

@[simp] theorem replay?_fill (offset : Nat) (opened : List Nat) (touches : List Touch) :
    replay? (offset :: opened) (fill offset :: touches) = replay? opened touches := if_pos rfl

theorem replay?_append (opened : List Nat) (touches touches' : List Touch) :
    replay? opened (touches ++ touches')
      = (replay? opened touches).bind fun opened' ↦ replay? opened' touches' := by
  induction touches generalizing opened with
  | nil => rfl
  | cons t touches ih =>
    cases t with
    | reserve offset => exact ih _
    | fill offset =>
      cases opened with
      | nil => rfl
      | cons innermost opened =>
        rw [List.cons_append, replay?, replay?]
        split
        · exact ih opened
        · rfl

/-- Of all the words that were reserved, each was filled once or is open in the end. -/
theorem perm_of_replay? {touches : List Touch} {opened opened' : List Nat}
    (h : replay? opened touches = some opened') :
    (filled touches ++ opened').Perm (reserved touches ++ opened) := by
  induction touches generalizing opened with
  | nil =>
    cases h
    exact .refl _
  | cons t touches ih =>
    cases t with
    | reserve offset => exact (ih h).trans List.perm_middle
    | fill offset =>
      cases opened with
      | nil => cases h
      | cons innermost opened =>
        rw [replay?] at h
        split at h
        · next heq =>
          subst heq
          exact ((ih h).cons innermost).trans List.perm_middle.symm
        · cases h

end Touch

/-! ## What a run does -/

namespace Analysis

variable {α : Type}

/-- A step that leaves the code alone, wherever it is run, and does not stop with a misfilled
word. -/
structure LeavesCode (m : Analysis α) : Prop where
  assembler : ∀ s, (final (m s)).assembler = s.assembler
  ne_misfilled : ∀ s s', m s ≠ .error .misfilled s'

/-- A change of the code only appends words and does not open or close reservations. -/
structure Appends (f : Assembler → Assembler) : Prop where
  cells : ∀ a, a.chunk.cells.toList <+: (f a).chunk.cells.toList
  holes : ∀ a, (f a).holes = a.holes

end Analysis

open Analysis in
/-- Running an analysis from a state does this to reserved words, whether it succeeds or not: one
step after another does what the first step does and, if that succeeds, what the second does. -/
inductive Does : {α : Type} → Analysis α → State → List Touch → Prop
  | aside {α : Type} {m : Analysis α} {s} : LeavesCode m → Does m s []
  | append {f s} : Appends f → Does (assemble f) s []
  | reserve {s} : Does Analysis.reserve s [.reserve s.assembler.chunk.size]
  | reserveCount {s} : Does Analysis.reserveCount s [.reserve s.assembler.chunk.size]
  | fill {hole w s} : Does (Analysis.fill hole w) s [.fill hole.offset]
  | fillOpcode {hole op s} : Does (Analysis.fillOpcode hole op) s [.fill hole.offset]
  | fillCount {hole s} : Does (Analysis.fillCount hole) s [.fill hole.offset]
  /-- A body runs in a frame of its own. -/
  | inFrame {α : Type} {m : Analysis α} {s touches} :
      Does m { s with environment := .start s.environment.fields, frame := {} } touches →
      Does (Analysis.inFrame m) s touches
  | bind {α β : Type} {m : Analysis α} {f : α → Analysis β} {s a s₁ touches touches'} :
      m s = .ok a s₁ → Does m s touches → Does (f a) s₁ touches' →
      Does (m >>= f) s (touches ++ touches')
  | stop {α β : Type} {m : Analysis α} {f : α → Analysis β} {s fault s₁ touches} :
      m s = .error fault s₁ → Does m s touches → Does (m >>= f) s touches

/-! ## Reservations of a run

What a run does to reserved words agrees with the reservations that the assembler holds open. -/

/-- Reservations and fillings lead from one assembler to another: with a stack they lead from the
reservations that are open in the one to those of the other, and they reserve words that were not
there before, the earlier ones first. -/
structure Touches (touches : List Touch) (a a' : Assembler) : Prop where
  replay : Touch.replay? a.holes touches = some a'.holes
  size : a.chunk.size ≤ a'.chunk.size
  sorted : (Touch.reserved touches).Pairwise (· < ·)
  bounds : ∀ k ∈ Touch.reserved touches, a.chunk.size ≤ k ∧ k < a'.chunk.size

namespace Touches

variable {touches touches' : List Touch} {a a' a'' : Assembler}

theorem nil (hh : a'.holes = a.holes) (hs : a.chunk.size ≤ a'.chunk.size) : Touches [] a a' :=
  ⟨by rw [hh]; rfl, hs, .nil, fun _ hk ↦ nomatch hk⟩

theorem of_eq (h : a' = a) : Touches [] a a' := by
  subst h
  exact nil rfl (Nat.le_refl _)

theorem trans (h : Touches touches a a') (h' : Touches touches' a' a'') :
    Touches (touches ++ touches') a a'' := by
  refine ⟨?_, Nat.le_trans h.size h'.size, ?_, fun k hk ↦ ?_⟩
  · rw [Touch.replay?_append, h.replay]
    exact h'.replay
  · rw [Touch.reserved, List.filterMap_append, List.pairwise_append]
    refine ⟨h.sorted, h'.sorted, fun k hk k' hk' ↦ ?_⟩
    exact Nat.lt_of_lt_of_le (h.bounds k hk).2 (h'.bounds k' hk').1
  · rw [Touch.reserved, List.filterMap_append, List.mem_append] at hk
    rcases hk with hk | hk
    · exact ⟨(h.bounds k hk).1, Nat.lt_of_lt_of_le (h.bounds k hk).2 h'.size⟩
    · exact ⟨Nat.le_trans h.size (h'.bounds k hk).1, (h'.bounds k hk).2⟩

theorem reserve (a : Assembler) : Touches [.reserve a.chunk.size] a a.appendHole := by
  have hs : a.appendHole.chunk.size = a.chunk.size + 1 := Array.size_push _
  refine ⟨rfl, by omega, List.pairwise_singleton _ _, fun k hk ↦ ?_⟩
  obtain rfl : k = a.chunk.size := List.mem_singleton.mp hk
  omega

theorem close {offset : Nat} {write : Chunk → Nat → Option Chunk}
    (hw : ∀ c c', write c offset = some c' → c'.size = c.size)
    (h : a.close offset write = some a') : Touches [.fill offset] a a' := by
  obtain ⟨c, holes, hc, hholes, rfl⟩ := Assembler.exists_of_close h
  refine ⟨?_, Nat.le_of_eq (hw _ _ hc).symm, .nil, fun _ hk ↦ nomatch hk⟩
  rw [hholes, Touch.replay?_fill]
  rfl

end Touches

/-- A word that is there can be overwritten. -/
theorem Chunk.exists_patch? {c : Chunk} {offset : Nat} (h : offset < c.size) (w : UInt32) :
    ∃ c', c.patch? offset w = some c' ∧ c'.size = c.size := by
  have hc : c.patch? offset w = some _ := dif_pos h
  exact ⟨_, hc, size_of_patch? hc⟩

theorem Chunk.exists_patchOpcode? {c : Chunk} {offset : Nat} (h : offset < c.size) (op : Opcode) :
    ∃ c', c.patchOpcode? offset op = some c' ∧ c'.size = c.size := by
  have hc : c.patchOpcode? offset op = some _ := dif_pos h
  exact ⟨_, hc, size_of_patchOpcode? hc⟩

namespace Analysis

variable {α β : Type} {s s₁ : State}

/-- A filling that is not refused closes the reservation. -/
theorem touches_filling {f : Assembler → Option Assembler} {offset : Nat}
    (hf : ∀ a a', f a = some a' → Touches [.fill offset] a a')
    (hm : ∀ s', filling f s ≠ .error .misfilled s') :
    Touches [.fill offset] s.assembler (final (filling f s)).assembler := by
  unfold filling at hm ⊢
  split
  · next a ha => exact hf _ _ ha
  · next hnone =>
    rw [hnone] at hm
    exact absurd rfl (hm s)

/-- An analysis in a frame of its own runs as it does outside of it, and then the frame around it is
put back. -/
theorem inFrame_eq (m : Analysis α) (s : State) :
    inFrame m s =
      match m { s with environment := .start s.environment.fields, frame := {} } with
      | .ok a s₁ => .ok a { s₁ with
          environment := { s.environment with fields := s₁.environment.fields }
          frame := s.frame }
      | .error fault s₁ => .error fault s₁ := by
  refine (bind_of_ok (m := get) rfl).trans ((bind_of_ok (m := set _) rfl).trans ?_)
  cases hm : m { s with environment := .start s.environment.fields, frame := {} } with
  | ok a s₁ => exact (bind_of_ok hm).trans rfl
  | error fault s₁ => exact bind_of_error hm

theorem require_cases (condition : Bool) (cause : Cause) (span : Span) (s : State) :
    require condition cause span s = .ok () s
    ∨ ∃ fault, fault ≠ .misfilled ∧ require condition cause span s = .error fault s := by
  unfold require
  split
  · exact .inl rfl
  · exact .inr ⟨_, Cause.at_ne_misfilled _ _, rfl⟩

theorem newSlot_cases (Γ : Setting) (span : Span) (s : State) :
    newSlot Γ span s = .ok s.frame.slotCount
      { s with frame := { s.frame with slotCount := s.frame.slotCount + 1 } }
    ∨ ∃ fault, fault ≠ .misfilled ∧ newSlot Γ span s = .error fault s := by
  have h : newSlot Γ span s = (requireSlot Γ s.frame.slotCount span >>= fun _ ↦ do
      modifyFrame ({ · with slotCount := s.frame.slotCount + 1 })
      return s.frame.slotCount) s := bind_of_ok rfl
  rcases require_cases _ _ span s with hr | ⟨fault, hf, hr⟩
  · exact .inl (h.trans (bind_of_ok hr))
  · exact .inr ⟨fault, hf, h.trans (bind_of_error hr)⟩

theorem declare_cases (v : Variable) (s : State) :
    (∃ e, s.environment.declare v = .ok e ∧ declare v s = .ok () { s with environment := e })
    ∨ ∃ fault, fault ≠ .misfilled ∧ declare v s = .error fault s := by
  unfold declare
  cases he : s.environment.declare v with
  | ok e => exact .inl ⟨e, rfl, rfl⟩
  | error fault =>
    refine .inr ⟨fault, ?_, rfl⟩
    unfold Environment.declare Scope.declare at he
    split at he
    · cases he
      exact Cause.at_ne_misfilled _ _
    · cases he

/-- The copy of a variable is declared in a slot behind `first`, unless an argument hides it. -/
theorem declareCaptured_cases (Γ : Setting) (span : Span) (first : Nat) (v : Variable)
    (s : State) :
    (s.environment.current.contains v.name ∧ declareCaptured Γ span first v s = .ok () s)
    ∨ (s.environment.current.contains v.name = false
      ∧ ∃ e, s.environment.declare { v with slot := first + v.slot } = .ok e
        ∧ declareCaptured Γ span first v s = .ok () { s with environment := e })
    ∨ ∃ fault, fault ≠ .misfilled ∧ declareCaptured Γ span first v s = .error fault s := by
  have h : declareCaptured Γ span first v s
      = (if !s.environment.current.contains v.name then do
          requireSlot Γ (first + v.slot) span
          declare { v with slot := first + v.slot }
        else pure () : Analysis Unit) s := bind_of_ok rfl
  cases hc : s.environment.current.contains v.name with
  | true =>
    rw [hc] at h
    exact .inl ⟨rfl, h⟩
  | false =>
    rw [hc] at h
    rcases require_cases _ _ span s with hr | ⟨fault, hf, hr⟩
    · replace h := h.trans (bind_of_ok hr)
      rcases declare_cases { v with slot := first + v.slot } s with ⟨e, he, hm⟩ | ⟨fault, hf, hm⟩
      · exact .inr (.inl ⟨rfl, e, he, h.trans hm⟩)
      · exact .inr (.inr ⟨fault, hf, h.trans hm⟩)
    · exact .inr (.inr ⟨fault, hf, h.trans (bind_of_error hr)⟩)

end Analysis

namespace Analysis.LeavesCode

variable {α β : Type} {m : Analysis α}

theorem of_ok {a : State → α} {f : State → State} (h : ∀ s, m s = .ok (a s) (f s))
    (hf : ∀ s, (f s).assembler = s.assembler) : LeavesCode m := by
  refine ⟨fun s ↦ ?_, fun s s' hm ↦ ?_⟩
  · rw [h]
    exact hf s
  · rw [h] at hm
    cases hm

theorem bind {f : α → Analysis β} (h : LeavesCode m) (h' : ∀ a, LeavesCode (f a)) :
    LeavesCode (m >>= f) := by
  refine ⟨fun s ↦ ?_, fun s s' hrun ↦ ?_⟩
  · have hm := h.assembler s
    cases hrun : m s with
    | ok a s₁ =>
      rw [hrun] at hm
      rw [bind_of_ok hrun]
      exact ((h' a).assembler s₁).trans hm
    | error fault s₁ =>
      rw [hrun] at hm
      rw [bind_of_error hrun]
      exact hm
  · cases hm : m s with
    | ok a s₁ =>
      rw [bind_of_ok hm] at hrun
      exact (h' a).ne_misfilled _ _ hrun
    | error fault s₁ =>
      rw [bind_of_error hm] at hrun
      cases hrun
      exact h.ne_misfilled _ _ hm

theorem forM {l : List β} {f : β → Analysis Unit} (h : ∀ b, LeavesCode (f b)) :
    LeavesCode (l.forM f) := by
  induction l with
  | nil => exact .of_ok (fun _ ↦ rfl) fun _ ↦ rfl
  | cons b l ih => exact .bind (h b) fun _ ↦ ih

/-- A step that is refused where it stands, or else leaves the code alone. -/
theorem of_cases (h : ∀ s, (∃ a s', m s = .ok a s' ∧ s'.assembler = s.assembler)
    ∨ ∃ fault, fault ≠ .misfilled ∧ m s = .error fault s) : LeavesCode m := by
  refine ⟨fun s ↦ ?_, fun s s' hrun ↦ ?_⟩ <;>
    rcases h s with ⟨a, s₁, hm, hs₁⟩ | ⟨fault, hfault, hm⟩
  · rw [hm]
    exact hs₁
  · rw [hm]
    rfl
  · cases hm.symm.trans hrun
  · cases hm.symm.trans hrun
    exact hfault rfl

theorem newSlot (Γ : Setting) (span : Span) : LeavesCode (newSlot Γ span) := by
  refine .of_cases fun s ↦ ?_
  rcases newSlot_cases Γ span s with hm | hfault
  · exact .inl ⟨_, _, hm, rfl⟩
  · exact .inr hfault

theorem declare (v : Variable) : LeavesCode (declare v) := by
  refine .of_cases fun s ↦ ?_
  rcases declare_cases v s with ⟨e, -, hm⟩ | hfault
  · exact .inl ⟨_, _, hm, rfl⟩
  · exact .inr hfault

theorem declareCaptured (Γ : Setting) (span : Span) (first : Nat) (v : Variable) :
    LeavesCode (declareCaptured Γ span first v) := by
  refine .of_cases fun s ↦ ?_
  rcases declareCaptured_cases Γ span first v s with ⟨-, hm⟩ | ⟨-, e, -, hm⟩ | hfault
  · exact .inl ⟨_, _, hm, rfl⟩
  · exact .inl ⟨_, _, hm, rfl⟩
  · exact .inr hfault

theorem takeOver (Γ : Setting) (span : Span) (captured : List Variable) (outerSlots : Nat) :
    LeavesCode (takeOver Γ span captured outerSlots) := by
  refine .bind (.of_ok (fun _ ↦ rfl) fun _ ↦ rfl) fun f ↦ ?_
  dsimp only
  split
  · exact .bind (.forM fun v ↦ .declareCaptured Γ span _ v) fun _ ↦
      .bind (.of_ok (fun _ ↦ rfl) fun _ ↦ rfl) fun _ ↦ .of_ok (fun _ ↦ rfl) fun _ ↦ rfl
  · exact .of_ok (fun _ ↦ rfl) fun _ ↦ rfl

end Analysis.LeavesCode

/-- **Reserved words keep the order of a stack.** Unless a run stops with a misfilled word, its
reservations and fillings lead from the words that are open in front of it to those that are open
behind it. -/
theorem Does.touches {α : Type} {m : Analysis α} {s : State} {touches : List Touch}
    (h : Does m s touches) (hm : ∀ s', m s ≠ .error .misfilled s') :
    Touches touches s.assembler (Analysis.final (m s)).assembler := by
  induction h with
  | aside h => exact .of_eq (h.assembler _)
  | @append f s hf =>
    refine .nil (hf.holes s.assembler) ?_
    have h := (hf.cells s.assembler).length_le
    rwa [Array.length_toList, Array.length_toList] at h
  | reserve | reserveCount => exact .reserve _
  | fill => exact Analysis.touches_filling (fun _ _ ↦ .close fun _ _ ↦ Chunk.size_of_patch?) hm
  | fillOpcode =>
    exact Analysis.touches_filling (fun _ _ ↦ .close fun _ _ ↦ Chunk.size_of_patchOpcode?) hm
  | fillCount =>
    exact Analysis.touches_filling (fun _ _ ↦ .close fun _ _ ↦ Chunk.size_of_patch?) hm
  | @inFrame α m s touches _ ih =>
    rw [Analysis.inFrame_eq] at hm ⊢
    split at hm
    · next a s₁ ha =>
      rw [ha] at ih
      exact ih fun _ h ↦ by cases h
    · next fault s₁ ha =>
      rw [ha] at ih
      exact ih hm
  | @bind α β m f s a s₁ touches touches' ha _ _ ih ih' =>
    have h := ih fun s' h ↦ by
      rw [ha] at h
      cases h
    rw [Analysis.bind_of_ok ha] at hm ⊢
    rw [ha] at h
    exact h.trans (ih' hm)
  | @stop α β m f s fault s₁ touches he _ ih =>
    rw [Analysis.bind_of_error he] at hm ⊢
    rw [he] at ih
    exact ih fun s' h ↦ hm s' (by cases h; rfl)

end Pictograph
