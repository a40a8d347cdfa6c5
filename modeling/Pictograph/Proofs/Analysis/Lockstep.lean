import Pictograph.Analysis.Body
import Pictograph.Proofs.Analysis.Resemblance

/-!
# Two analyses in lockstep

The same body is analysed in two settings that resemble one another. Both analyses do the same, step
by step, and their states stay the same apart from the session. What else is kept is left open here:
how the sessions correspond, after which faults of the first analysis nothing is claimed about the
second, and what is true of every state on the way. It has to be kept by the few things that steps
do to a state; these are the laws. From them it follows for every construct, see
`Proofs/Analysis/LockstepConstructs`.

If both settings are the same and so are the states, what is kept is an invariant. There is little
sense in one that holds of everything, so the laws leave out two things: the instructions that touch
the instance, and closures. An invariant about these needs a lemma of its own for each of the four
constructs that write them.

## Main definitions

* `Lockstep`: what two analyses are compared by.
* `Lockstep.Ends`, `Lockstep.Follows`: the ends of two analyses correspond.
* `Lockstep.Lawful`: the laws.

## Main results

* `Lockstep.Follows.bind`, `Lockstep.Lawful.follows_repeatUntil`: one step after another.
-/

namespace Pictograph

/-! ## Opcodes -/

/-- Whether an instruction touches the instance. -/
def Opcode.touchesInstance : Opcode → Bool
  | access .object _ | selfReference | superMethodCall | superInitializer => true
  | _ => false

/-- Whether an instruction neither touches the instance nor is a closure. -/
def Opcode.isPlain (op : Opcode) : Bool := !op.touchesInstance && op != .closure

/-! ## What is kept -/

/-- What two analyses are compared by. -/
structure Lockstep where
  /-- When settings correspond. -/
  setting : Setting → Setting → Prop
  /-- What is true of the states of the first analysis, and how the session of the second one
  corresponds. -/
  state : State → Session → Prop
  /-- How the sessions correspond if both analyses have failed. -/
  failed : Session → Session → Prop
  /-- The faults of the first analysis after which nothing is claimed. -/
  excused : Fault → Prop
  /-- Where the variables in reach may be stored. -/
  reaches : Storage → Prop

namespace Lockstep

variable {L : Lockstep} {α β σ : Type}

/-- The ends of two analyses correspond: both succeed with the same value and the same state apart
from the session, or both fail with the same fault, or the fault of the first one is excused. -/
inductive Ends (L : Lockstep) : EStateM.Result Fault State α → EStateM.Result Fault State α → Prop
  | ok {a : α} {t : State} {z : Session} (ht : L.state t z) :
      Ends L (.ok a t) (.ok a { t with session := z })
  | error {e : Fault} {t t' : State} (ht : L.failed t.session t'.session) :
      Ends L (.error e t) (.error e t')
  | excused {e : Fault} {t : State} {r : EStateM.Result Fault State α} (he : L.excused e) :
      Ends L (.error e t) r

/-- Two computations correspond. -/
def Follows (L : Lockstep) (m m' : Analysis α) : Prop :=
  ∀ s z, L.state s z → L.Ends (m s) (m' { s with session := z })

/-- The laws of what is kept. -/
structure Lawful (L : Lockstep) : Prop where
  resembles {Γ Γ'} : L.setting Γ Γ' → Γ.Resembles Γ'
  failed {s z} : L.state s z → L.failed s.session z
  reaches {s z x storage v} : L.state s z → s.environment.resolve? x = some (storage, v) →
    L.reaches storage
  keeps_cursor {s z} (c : Cursor) : L.state s z → L.state { s with cursor := c } z
  keeps_line {s z} (line : Nat) : L.state s z →
    L.state { s with assembler := s.assembler.atLine line } z
  keeps_opcode {s z} {op : Opcode} : op.isPlain → L.state s z →
    L.state { s with assembler := s.assembler.opcode op } z
  keeps_word {s z} (w : UInt32) : L.state s z →
    L.state { s with assembler := s.assembler.word w } z
  keeps_hole {s z} : L.state s z → L.state { s with assembler := s.assembler.appendHole } z
  keeps_fill {s z hole w a} : L.state s z → s.assembler.fill? hole w = some a →
    L.state { s with assembler := a } z
  keeps_fillOpcode {s z hole a} {op : Opcode} : op.isPlain → L.state s z →
    s.assembler.fillOpcode? hole op = some a → L.state { s with assembler := a } z
  keeps_fillCount {s z hole a} : L.state s z → s.assembler.fillCount? hole = some a →
    L.state { s with assembler := a } z
  keeps_warning {s z} (w : Warning) : L.state s z →
    L.state { s with session := s.session.warn w } (z.warn w)
  keeps_string {s z} (content : String) : L.state s z →
    (z.intern content).1 = (s.session.intern content).1
      ∧ L.state { s with session := (s.session.intern content).2 } (z.intern content).2
  keeps_environment {s z} {e : Environment} : L.state s z →
    e.fields.isSome = s.environment.fields.isSome → L.state { s with environment := e } z
  keeps_frame {s z} {f : Frame} : L.state s z → f.usesSelf = s.frame.usesSelf →
    L.state { s with frame := f } z
  follows_requireSlot {Γ Γ'} (slot : Nat) (p : Span) : L.setting Γ Γ' →
    L.Follows (Analysis.requireSlot Γ slot p) (Analysis.requireSlot Γ' slot p)
  follows_recommendFrozen {Γ Γ'} (candidates : List Variable) : L.setting Γ Γ' →
    L.Follows (Analysis.recommendFrozen Γ candidates) (Analysis.recommendFrozen Γ' candidates)
  follows_emitAccess {storage : Storage} (action : Access) (slot : Nat) : L.reaches storage →
    L.Follows (Analysis.emitAccess storage action slot) (Analysis.emitAccess storage action slot)

/-! ## Rules -/

namespace Follows

variable {m m' : Analysis α} {f f' : α → Analysis β}

theorem pure (a : α) : L.Follows (pure a) (pure a) := fun _ _ hs ↦ .ok hs

/-- One step after another. -/
theorem bind (hm : L.Follows m m') (hf : ∀ a, L.Follows (f a) (f' a)) :
    L.Follows (m >>= f) (m' >>= f') := by
  intro s z hs
  have hend := hm s z hs
  change L.Ends (EStateM.bind m f s) (EStateM.bind m' f' _)
  unfold EStateM.bind
  generalize m s = r, m' { s with session := z } = r' at hend ⊢
  cases hend with
  | ok ht => exact hf _ _ _ ht
  | error ht => exact .error ht
  | excused he => exact .excused he

theorem ite {c : Prop} [Decidable c] {l l' : Analysis α} (hm : L.Follows m m')
    (hl : L.Follows l l') : L.Follows (if c then m else l) (if c then m' else l') := by
  split
  · exact hm
  · exact hl

/-- A step that may be left out. -/
theorem optional {c : Prop} [Decidable c] {x x' : Analysis Unit} {g g' : Unit → Analysis α}
    (hx : L.Follows x x') (hg : L.Follows (g ()) (g' ())) :
    L.Follows (if c then x >>= g else g ()) (if c then x' >>= g' else g' ()) :=
  ite (hx.bind fun _ ↦ hg) hg

/-- A step for every element of a list. -/
theorem forM {g g' : σ → Analysis Unit} (l : List σ) (hg : ∀ a, L.Follows (g a) (g' a)) :
    L.Follows (l.forM g) (l.forM g') := by
  induction l with
  | nil => exact .pure ()
  | cons a l ih => exact (hg a).bind fun _ ↦ ih

/-- A computation may look at the state that it goes on from. -/
theorem lookAt {g g' : State → Analysis α}
    (h : ∀ s z, L.state s z → L.Ends (g s s) (g' { s with session := z } { s with session := z })) :
    L.Follows (get >>= g) (get >>= g') := h

/-- A computation may look at the state, apart from the session. -/
theorem look {g g' : State → Analysis α}
    (h : ∀ s z, L.state s z → L.Follows (g s) (g' { s with session := z })) :
    L.Follows (get >>= g) (get >>= g') :=
  fun s z hs ↦ h s z hs s z hs

end Follows

/-! ## Steps -/

theorem follows_frame : L.Follows Analysis.frame Analysis.frame := .look fun _ _ _ ↦ .pure _

theorem follows_here : L.Follows Analysis.here Analysis.here := .look fun _ _ _ ↦ .pure _

namespace Lawful

open Analysis

variable {Γ Γ' : Setting} (hL : L.Lawful)

include hL

theorem follows_throw (e : Fault) : L.Follows (throw e : Analysis α) (throw e : Analysis α) :=
  fun _ _ hs ↦ .error (hL.failed hs)

/-! ### Repetitions -/

theorem follows_repeating {step step' : σ → Analysis (σ ⊕ β)}
    (h : ∀ a, L.Follows (step a) (step' a)) (fuel : Nat) (a : σ) :
    L.Follows (repeating step fuel a) (repeating step' fuel a) := by
  induction fuel generalizing a with
  | zero => exact hL.follows_throw .exhausted
  | succ fuel ih =>
    refine (h a).bind fun turn ↦ ?_
    cases turn with
    | inl a => exact ih a
    | inr b => exact .pure b

theorem follows_repeatUntil {step step' : σ → Analysis (σ ⊕ β)}
    (h : ∀ a, L.Follows (step a) (step' a)) (a : σ) :
    L.Follows (repeatUntil step a) (repeatUntil step' a) :=
  .look fun _ _ _ ↦ hL.follows_repeating h _ a

/-! ### Reading -/

theorem follows_reading (r : Reading α) : L.Follows (reading r) (reading r) := by
  intro s z hs
  unfold reading
  dsimp only
  cases r s.cursor with
  | ok a c => exact .ok (hL.keeps_cursor c hs)
  | error e c => exact .error (hL.failed (hL.keeps_cursor c hs))

theorem follows_next : L.Follows next next := hL.follows_reading _

theorem follows_name : L.Follows name name := hL.follows_reading _

theorem follows_variableName : L.Follows variableName variableName := hL.follows_reading _

theorem follows_accepts (construct : Construct) :
    L.Follows (accepts construct) (accepts construct) :=
  (hL.follows_reading _).bind fun _ ↦ .pure _

theorem follows_annotated (hΓ : L.setting Γ Γ') (dynamism : Dynamism) :
    L.Follows ( annotation Γ dynamism) ( annotation Γ' dynamism) := by
  rw [(hL.resembles hΓ).annotation_eq]
  exact hL.follows_reading _

/-! ### Writing -/

theorem follows_setLine (line : Nat) : L.Follows (setLine line) (setLine line) :=
  fun _ _ hs ↦ .ok (hL.keeps_line line hs)

theorem follows_emit {op : Opcode} (hop : op.isPlain) : L.Follows (emit op) (emit op) :=
  fun _ _ hs ↦ .ok (hL.keeps_opcode hop hs)

theorem follows_emitWord (w : UInt32) : L.Follows (emitWord w) (emitWord w) :=
  fun _ _ hs ↦ .ok (hL.keeps_word w hs)

theorem follows_emitNumber (n : Nat) : L.Follows (emitNumber n) (emitNumber n) :=
  hL.follows_emitWord _

theorem follows_emitWide (value : UInt64) : L.Follows (emitWide value) (emitWide value) :=
  fun _ _ hs ↦ .ok (hL.keeps_word (Chunk.lowWord value) (hL.keeps_word (Chunk.highWord value) hs))

theorem follows_reserve : L.Follows reserve reserve := fun _ _ hs ↦ .ok (hL.keeps_hole hs)

theorem follows_reserveCount : L.Follows reserveCount reserveCount :=
  fun _ _ hs ↦ .ok (hL.keeps_hole hs)

theorem follows_filling {f : Assembler → Option Assembler}
    (hf : ∀ s z a, L.state s z → f s.assembler = some a → L.state { s with assembler := a } z) :
    L.Follows (filling f) (filling f) := by
  intro s z hs
  rw [filling, filling]
  dsimp only
  cases ha : f s.assembler with
  | none => exact .error (hL.failed hs)
  | some a => exact .ok (hf s z a hs ha)

theorem follows_fill (hole : Hole) (w : UInt32) :
    L.Follows (Analysis.fill hole w) (Analysis.fill hole w) :=
  hL.follows_filling fun _ _ _ hs ha ↦ hL.keeps_fill hs ha

theorem follows_fillOpcode (hole : Hole) {op : Opcode} (hop : op.isPlain) :
    L.Follows (fillOpcode hole op) (fillOpcode hole op) :=
  hL.follows_filling fun _ _ _ hs ha ↦ hL.keeps_fillOpcode hop hs ha

theorem follows_fillCount (hole : CountHole) :
    L.Follows (fillCount hole) (fillCount hole) :=
  hL.follows_filling fun _ _ _ hs ha ↦ hL.keeps_fillCount hs ha

/-! ### The session -/

theorem follows_warn (remark : Remark) (p : Span) :
    L.Follows (warn remark p) (warn remark p) :=
  fun _ _ hs ↦ .ok (hL.keeps_warning ⟨remark, p⟩ hs)

theorem follows_intern (content : String) : L.Follows (intern content) (intern content) := by
  intro s z hs
  obtain ⟨hindex, hstate⟩ := hL.keeps_string content hs
  change L.Ends (.ok (s.session.intern content).1 _) (.ok (z.intern content).1 _)
  rw [hindex]
  exact .ok hstate

/-! ### Variables -/

/-- What follows a lookup may depend on the variable that the name refers to. -/
theorem follows_resolve?_bind {x : String} {f f' : Option (Storage × Variable) → Analysis α}
    (hnone : L.Follows (f none) (f' none))
    (hsome : ∀ storage v, L.reaches storage →
      L.Follows (f (some (storage, v))) (f' (some (storage, v)))) :
    L.Follows (resolve? x >>= f) (resolve? x >>= f') := by
  intro s z hs
  change L.Ends (f (s.environment.resolve? x) s) (f' (s.environment.resolve? x) _)
  cases hx : s.environment.resolve? x with
  | none => exact hnone s z hs
  | some found => exact hsome _ _ (hL.reaches hs hx) s z hs

theorem follows_modifyEnvironment {f : Environment → Environment}
    (hf : ∀ e, (f e).fields.isSome = e.fields.isSome) :
    L.Follows (modifyEnvironment f) (modifyEnvironment f) :=
  fun _ _ hs ↦ .ok (hL.keeps_environment hs (hf _))

theorem follows_declare (v : Variable) : L.Follows (declare v) (declare v) := by
  intro s z hs
  rw [declare, declare, Environment.declare]
  dsimp only
  cases s.environment.current.declare v with
  | error fault => exact .error (hL.failed hs)
  | ok scope => exact .ok (hL.keeps_environment hs rfl)

/-! ### The frame -/

theorem follows_modifyFrame {f : Frame → Frame} (hf : ∀ fr, (f fr).usesSelf = fr.usesSelf) :
    L.Follows (modifyFrame f) (modifyFrame f) :=
  fun _ _ hs ↦ .ok (hL.keeps_frame hs (hf _))

/-! ### Checks -/

theorem follows_fail (cause : Cause) (p : Span) :
    L.Follows (fail cause p : Analysis α) (fail cause p : Analysis α) :=
  hL.follows_throw _

theorem follows_require (condition : Bool) (cause : Cause) (p : Span) :
    L.Follows (require condition cause p) (require condition cause p) :=
  .ite (.pure ()) (hL.follows_fail cause p)

theorem follows_demand (value? : Option α) (cause : Cause) (p : Span) :
    L.Follows (demand value? cause p) (demand value? cause p) := by
  cases value? with
  | none => exact hL.follows_fail cause p
  | some value => exact .pure value

/-- What is demanded may differ where it makes no difference to what follows. -/
theorem follows_demand_bind {R : σ → σ → Prop} {a? b? : Option σ} {f f' : σ → Analysis β}
    (hR : Option.Rel R a? b?) (cause : Cause) (p : Span)
    (hf : ∀ a b, R a b → L.Follows (f a) (f' b)) :
    L.Follows (demand a? cause p >>= f) (demand b? cause p >>= f') := by
  cases hR with
  | none => exact fun _ _ hs ↦ .error (hL.failed hs)
  | some hab => exact hf _ _ hab

theorem follows_lift (x : Except Fault α) : L.Follows (lift x) (lift x) := by
  cases x with
  | ok a => exact .pure a
  | error e => exact hL.follows_throw e

theorem follows_requireUndeclared (x : String) (p : Span) :
    L.Follows (requireUndeclared x p) (requireUndeclared x p) :=
  .look fun _ _ _ ↦ hL.follows_require _ _ _

theorem follows_requireComplete (hΓ : L.setting Γ Γ') (p : Span) :
    L.Follows (requireComplete Γ p) (requireComplete Γ' p) := by
  rw [requireComplete, requireComplete, (hL.resembles hΓ).isSome_initializer?]
  exact .ite (.look fun _ _ _ ↦ hL.follows_lift _) (.pure ())

theorem follows_newSlot (hΓ : L.setting Γ Γ') (p : Span) :
    L.Follows (newSlot Γ p) (newSlot Γ' p) := by
  refine follows_frame.bind fun f ↦ (hL.follows_requireSlot _ p hΓ).bind fun _ ↦ ?_
  exact .bind (hL.follows_modifyFrame fun _ ↦ rfl) fun _ ↦ .pure _

end Lawful

end Lockstep

end Pictograph
