import Pictograph.Proofs.Analysis.ClosureBodies
import Pictograph.Proofs.Analysis.TakenSlots
import Pictograph.Proofs.Compilation.Closures

/-!
# The frames of a procedure

When a procedure is compiled, its body is analysed in a frame of its own, and so is the body of each
closure that the analysis gets to, in whatever depth. Each of these bodies enters its frame and goes
through its statements, and each expression of the procedure belongs to one of the frames: that of
the innermost closure around it.

## Main definitions

* `FrameBody`: a body that is analysed in a frame of its own.
* `FrameIn`: the bodies that are analysed when a procedure is compiled.
* `FrameBody.Runs`: a body enters its frame and gets through its statements.
* `FrameBody.Has`: an expression belongs to a frame.

## Main results

* `FrameIn.exists_runs`: every body of an accepted procedure runs.
* `FrameIn.reachedIn` and `ReachedIn.exists_frame`: the expressions of frames are those of the
  procedure.
-/

namespace Pictograph

open Analysis

/-- A body that is analysed in a frame of its own. -/
structure FrameBody where
  /-- How many levels of nesting there may be in it. -/
  levels : Nat
  /-- What its statements are analysed for. -/
  setting : Setting
  /-- The arguments that the frame starts with. -/
  arguments : List Argument
  /-- The variables around it that are taken over. -/
  captured : List Variable
  /-- The number of slots of the frame around it. -/
  outerSlots : Nat
  /-- The state in which it begins. -/
  start : State

namespace FrameBody

variable (b : FrameBody) (entry ending : State)

/-- The frame is entered: in the state `entry` there are the arguments and what is taken over. -/
def Enters : Prop :=
  ∃ first, enterBody b.setting b.arguments b.captured b.outerSlots b.start = .ok first entry

/-- The frame is entered, and the statements are analysed from there on, up to the state
`ending`. -/
structure Runs : Prop where
  enters : b.Enters entry
  statements : ∃ close, bodyStatements b.setting (expression b.levels) entry = .ok close ending

/-- An expression belongs to the frame, and `n` levels of nesting are left there. -/
def Has (n : Nat) (q : Query) : Prop :=
  InFrame (fun r ↦ bodyStatements b.setting r) b.levels entry n q

end FrameBody

section

variable (cat : Catalogue) (options : Options) (session : Session) (c : Class) (m : Member)
  (tokens : List Token)

/-- The bodies that are analysed when a procedure is compiled: its own, and those of the closures
that the analysis gets to, at their offsets. -/
inductive FrameIn : Option Nat → FrameBody → Prop
  | own {fields : Option Scope} (hnative : m.isNative = false)
      (hfields : cat.fieldsFor c m = .ok fields) :
      FrameIn none ⟨tokens.length, .ofMember cat options c m, m.arguments, [], 0,
        .start fields session tokens⟩
  | closure {n : Nat} {q : Query} {arguments : List Argument} {result : Ty} {s₁ s₂ : State}
      (hq : ReachedIn cat options session c m tokens (n + 1) q)
      (hclosure : q.token.asksFor .blockOpen)
      (harguments : closureArguments q.setting q.begun = .ok arguments s₁)
      (hresult : closureResult q.setting s₁ = .ok result s₂) :
      FrameIn (some q.state.offset) ⟨n, q.setting.ofClosure result, arguments,
        s₂.environment.visible, s₂.frame.slotCount, s₂.enterClosure⟩

/-- All of a procedure is analysed in its frames. -/
structure FramesCover : Prop where
  own : m.isNative = false → ∃ b, FrameIn cat options session c m tokens none b
  closures : ∀ n q, ReachedIn cat options session c m tokens (n + 1) q →
    q.token.asksFor .blockOpen →
    ∃ b, FrameIn cat options session c m tokens (some q.state.offset) b
  expressions : ∀ n q, ReachedIn cat options session c m tokens n q →
    ∃ place b entry, FrameIn cat options session c m tokens place b ∧ b.Enters entry
      ∧ b.Has entry n q

end

/-- The number of slots that a record gives for a frame: in its header for that of its own body, and
behind the opcode for that of a closure. -/
def Record.Counts (record : Record) : Option Nat → Nat → Prop
  | none, slots => record.header.slotCount = slots
  | some offset, slots => record.code.wordAt? (offset + 1) = some (UInt32.ofNat slots)

section

variable {cat : Catalogue} {options : Options} {session session' : Session} {c : Class}
  {m : Member} {tokens : List Token} {record : Record} {place : Option Nat} {b : FrameBody}
  {entry ending : State} {n : Nat} {q : Query}

/-! ## Expressions of frames -/

/-- What belongs to a frame of a procedure, its analysis gets to. -/
theorem FrameIn.reachedIn (hb : FrameIn cat options session c m tokens place b)
    (henter : b.Enters entry) (h : b.Has entry n q) :
    ReachedIn cat options session c m tokens n q := by
  obtain ⟨first, henter⟩ := henter
  induction h with
  | asked hq =>
    cases hb with
    | own hnative hfields => exact ⟨hnative, _, hfields, .asked (asks_of_enterBody henter hq)⟩
    | closure hq' hclosure harguments hresult =>
      obtain ⟨holes, hopen⟩ := exists_openClosure harguments hresult
      exact hq'.nested (.of_begun hclosure nofun (asks_closure hopen (asks_of_enterBody henter hq)))
  | nested _ _ hq ih => exact ih.nested hq

/-- **Every expression belongs to a frame.** -/
theorem ReachedIn.exists_frame (h : ReachedIn cat options session c m tokens n q) :
    ∃ place b entry, FrameIn cat options session c m tokens place b ∧ b.Enters entry
      ∧ b.Has entry n q := by
  obtain ⟨hnative, fields, hfields, hq⟩ := h
  induction hq with
  | asked hq =>
    obtain ⟨first, entry, henter, hq⟩ := exists_of_asks_body (goesOnward_expression _) hq
    exact ⟨none, _, entry, .own hnative hfields, ⟨first, henter⟩, .asked hq⟩
  | @nested n q q' h hq ih =>
    cases hopen : q.token.asksFor .blockOpen with
    | false =>
      obtain ⟨place, b, entry, hb, henter, hhas⟩ := ih
      exact ⟨place, b, entry, hb, henter, .nested hhas hopen hq⟩
    | true =>
      obtain ⟨x, s, hx, hq⟩ :=
        exists_of_asks_closure (goesOnward_expression n) (hq.begun hopen nofun)
      obtain ⟨s₁, s₂, harguments, hresult, rfl⟩ := openClosure_steps hx
      obtain ⟨first, entry, henter, hq⟩ := exists_of_asks_body (goesOnward_expression n) hq
      exact ⟨some q.state.offset, _, entry,
        .closure ⟨hnative, fields, hfields, h⟩ hopen harguments hresult, ⟨first, henter⟩, .asked hq⟩

/-! ## Accepted procedures -/

/-- **Every body of an accepted procedure runs**, and the record says how many slots its frame
has. -/
theorem FrameIn.exists_runs (hb : FrameIn cat options session c m tokens place b)
    (h : compile cat options session c m tokens = (.ok record, session')) :
    ∃ entry ending, b.Runs entry ending ∧ record.Counts place ending.frame.slotCount := by
  cases hb with
  | own hnative hfields =>
    obtain ⟨fields, summary, s, hfields', hbody, -, hcount⟩ := analyse_of_compile hnative h
    cases hfields.symm.trans hfields'
    rw [analyse, body_eq_enterBody] at hbody
    obtain ⟨first, entry, henter, hbody⟩ := bind_ok hbody
    obtain ⟨close, ending, hstatements, hleave⟩ := bind_ok hbody
    obtain ⟨hkeeps, -⟩ := leaveBody_ok hleave
    exact ⟨entry, ending, ⟨⟨first, henter⟩, close, hstatements⟩,
      hcount.trans (congrArg Context.slotCount hkeeps.context)⟩
  | @closure n q arguments result s₁ s₂ hq hclosure harguments hresult =>
    obtain ⟨t, s', hanswer⟩ := hq.answered h
    obtain ⟨arguments', entry, ending, code, hencloses, -, -, hlisting, -⟩ :=
      closure_captures hq hclosure hanswer
    obtain @⟨_, _, _, _, close, first, harguments', hresult', hdeclare, htake, hstatements⟩ :=
      hencloses
    cases harguments.symm.trans harguments'
    cases hresult.symm.trans hresult'
    have henter : enterBody (q.setting.ofClosure result) arguments s₂.environment.visible
        s₂.frame.slotCount s₂.enterClosure = .ok first entry :=
      (bind_of_ok rfl).trans ((bind_of_ok hdeclare).trans htake)
    -- behind the opcode stands the number of slots, and it stays there
    have hentry : s'.listing[q.state.offset + 1]?
        = some (immediateNumber ending.frame.slotCount) := by
      have hle : q.state.listing.length ≤ q.state.offset + 1 :=
        q.state.length_listing ▸ Nat.le_succ _
      rw [hlisting, List.getElem?_append_right hle, q.state.length_listing, Nat.add_sub_cancel_left]
      rfl
    have hword : s'.assembler.chunk.wordAt? (q.state.offset + 1)
        = some (UInt32.ofNat ending.frame.slotCount) := by
      rw [Chunk.wordAt?_eq]
      exact congrArg (Option.map Prod.fst) hentry
    exact ⟨entry, ending, ⟨⟨first, henter⟩, close, hstatements⟩,
      ((hq.staysIn h hanswer).mono (Nat.le_succ _)).wordAt? hword⟩

/-- **All of an accepted procedure is analysed in its frames.** -/
theorem framesCover_of_compile
    (h : compile cat options session c m tokens = (.ok record, session')) :
    FramesCover cat options session c m tokens where
  own hnative :=
    have ⟨_, _, _, hfields, _⟩ := analyse_of_compile hnative h
    ⟨_, .own hnative hfields⟩
  closures n q hq hclosure := by
    obtain ⟨t, s', hanswer⟩ := hq.answered h
    obtain ⟨arguments, entry, ending, code, ⟨harguments, hresult, -⟩, -⟩ :=
      closure_captures hq hclosure hanswer
    exact ⟨_, .closure hq hclosure harguments hresult⟩
  expressions _ _ hq := hq.exists_frame

end

end Pictograph
