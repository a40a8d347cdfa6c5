import Pictograph.Proofs.Analysis.Composition
import Pictograph.Proofs.Analysis.Reached
import Pictograph.Proofs.Code.Preservation

/-!
# The passage of an analysis through its queries

An analysis that succeeds reads tokens one after the other and leaves the code in front of it as it
is. If it asks for an expression on its way, this is true of the way there and of the way from
there on. So what the code of the expression was, where it ended, it is still in the end.

The expressions that an analysis asks for decide what it does, and it asks for them one behind the
other. So of all expressions that it gets to, any two are one behind the other, or one of them is
inside the other.

## Main definitions

* `State.Onward`: from one state to another tokens were read, and what was written was preserved.
* `Traverses`: how an analysis gets through the queries that it asks.
* `Recursion.Within`: what is answered in one way is answered alike in another one.
* `Query.Leads`: a query is inside another one.
* `Analysis.refusing`: analyses expressions, but refuses some of them.

## Main results

* `Traverses.eq_of_within`: a run that succeeds does not change if more is answered.
* `Reaches.onward`: a run goes onward to every query it gets to, and onward from its answer.
* `Reaches.nested_or_apart`: of two queries one is inside the other, or they are apart.
* `Reaches.exists_of_refusing_ne`: what makes a difference if it is refused is reached.
-/

namespace Pictograph

/-! ## Going onward -/

/-- Tokens were read one after the other. -/
structure Cursor.Onward (c c' : Cursor) (read : List Token) : Prop where
  after : c.after = read ++ c'.after
  before : c'.before = read.reverse ++ c.before

/-- From one state to another tokens were read, and what was written was preserved. -/
structure State.Onward (s s' : State) : Prop where
  tokens : ∃ read, s.cursor.Onward s'.cursor read
  code : s.assembler.Preserves s'.assembler

theorem Cursor.Onward.refl (c : Cursor) : c.Onward c [] := ⟨rfl, rfl⟩

theorem Cursor.Onward.trans {c c' c'' : Cursor} {read read' : List Token}
    (h : c.Onward c' read) (h' : c'.Onward c'' read') : c.Onward c'' (read ++ read') where
  after := by rw [h.after, h'.after, List.append_assoc]
  before := by rw [h'.before, h.before, List.reverse_append, List.append_assoc]

theorem Cursor.Onward.remaining_eq {c c' : Cursor} {read : List Token} (h : c.Onward c' read) :
    c.remaining = read.length + c'.remaining := by
  rw [remaining, h.after, List.length_append, remaining]

namespace State.Onward

variable {s s' s'' : State}

theorem refl (s : State) : s.Onward s := ⟨⟨[], .refl _⟩, .refl _⟩

theorem trans (h : s.Onward s') (h' : s'.Onward s'') : s.Onward s'' := by
  obtain ⟨read, hread⟩ := h.tokens
  obtain ⟨read', hread'⟩ := h'.tokens
  exact ⟨⟨_, hread.trans hread'⟩, h.code.trans h'.code⟩

theorem of_same (hc : s'.cursor = s.cursor) (ha : s'.assembler = s.assembler) : s.Onward s' :=
  ⟨⟨[], hc ▸ .refl _⟩, .of_eq ha⟩

end State.Onward

/-- In one frame going onward takes slots, and gives none back. -/
structure State.Along (s s' : State) : Prop extends s.Onward s' where
  slots : s.frame.slotCount ≤ s'.frame.slotCount

/-- Going onward may take no slots. -/
structure State.Still (s s' : State) : Prop extends s.Onward s' where
  slots : s'.frame.slotCount = s.frame.slotCount

/-- What is true of going onward without taking slots, and of one way behind another. -/
class State.Passable (R : State → State → Prop) : Prop where
  of_still : ∀ {s s' : State}, s.Still s' → R s s'
  trans : ∀ {s s' s'' : State}, R s s' → R s' s'' → R s s''

/-- What is also true of taking slots. -/
class State.Granting (R : State → State → Prop) : Prop extends State.Passable R where
  of_along : ∀ {s s' : State}, s.Along s' → R s s'

instance : State.Passable State.Still where
  of_still h := h
  trans h h' := ⟨h.toOnward.trans h'.toOnward, h'.slots.trans h.slots⟩

instance : State.Granting State.Along where
  of_still h := ⟨h.toOnward, Nat.le_of_eq h.slots.symm⟩
  of_along h := h
  trans h h' := ⟨h.toOnward.trans h'.toOnward, Nat.le_trans h.slots h'.slots⟩

instance : State.Granting State.Onward where
  of_still h := h.toOnward
  of_along h := h.toOnward
  trans h h' := h.trans h'

theorem State.Passable.refl {R : State → State → Prop} [State.Passable R] (s : State) : R s s :=
  of_still ⟨.refl s, rfl⟩

theorem Reading.accept_onward {test : Token → Bool} {c d : Cursor} {t? : Option Token}
    (h : accept test c = .ok t? d) : ∃ read, c.Onward d read := by
  unfold accept at h
  split at h
  · next t e hadvance =>
    split at h
    · cases h
      obtain ⟨hafter, hbefore⟩ := Cursor.advance_eq_some hadvance
      exact ⟨[t], hafter, hbefore⟩
    · cases h
      exact ⟨[], .refl _⟩
  · cases h
    exact ⟨[], .refl _⟩

/-- What a reader reads, it reads one token after the other. -/
theorem Reading.Composed.onward {α : Type} {r : Reading α} (h : r.Composed) {c d : Cursor} {a : α}
    (hr : r c = .ok a d) : ∃ read, c.Onward d read := by
  induction h generalizing c d with
  | pure | remaining =>
    cases hr
    exact ⟨[], .refl _⟩
  | throw => cases hr
  | next =>
    unfold Reading.next at hr
    split at hr
    · next t e hadvance =>
      cases hr
      obtain ⟨hafter, hbefore⟩ := Cursor.advance_eq_some hadvance
      exact ⟨[a], hafter, hbefore⟩
    · cases hr
  | accept => exact accept_onward hr
  | @bind α β r f _ _ ih ih' =>
    change EStateM.bind r f c = _ at hr
    unfold EStateM.bind at hr
    split at hr
    · next b e hb =>
      obtain ⟨read, hread⟩ := ih hb
      obtain ⟨read', hread'⟩ := ih' b hr
      exact ⟨_, hread.trans hread'⟩
    · cases hr

namespace Analysis

variable {α β : Type} {Γ : Setting} {span : Span}

/-- Whatever run succeeds goes a certain way. -/
def Goes (R : State → State → Prop) (m : Analysis α) : Prop := ∀ s a s', m s = .ok a s' → R s s'

/-- Whatever run succeeds goes onward. -/
abbrev GoesOnward (m : Analysis α) : Prop := Goes State.Onward m

namespace Goes

variable {R : State → State → Prop} {m : Analysis α} {f : α → Analysis β}

theorem throw (fault : Fault) : Goes R (throw fault : Analysis α) := fun _ _ _ h ↦ nomatch h

theorem ite {c : Prop} [Decidable c] {m' : Analysis α} (h : Goes R m) (h' : Goes R m') :
    Goes R (if c then m else m') := by
  split
  · exact h
  · exact h'

variable [State.Passable R]

theorem bind (h : Goes R m) (h' : ∀ a, Goes R (f a)) : Goes R (m >>= f) := by
  intro s b s' hb
  obtain ⟨a, s₁, ha, hb⟩ := bind_ok hb
  exact State.Passable.trans (h s a s₁ ha) (h' a s₁ b s' hb)

/-- A step that neither reads nor writes. -/
theorem of_same (h : ∀ s a s', m s = .ok a s' → s'.cursor = s.cursor ∧ s'.assembler = s.assembler
    ∧ s'.frame.slotCount = s.frame.slotCount) : Goes R m := by
  intro s a s' ha
  obtain ⟨hcursor, hassembler, hslots⟩ := h s a s' ha
  exact State.Passable.of_still ⟨.of_same hcursor hassembler, hslots⟩

theorem pure (a : α) : Goes R (pure a : Analysis α) := .of_same <| by
  rintro s _ _ ⟨⟩
  exact ⟨rfl, rfl, rfl⟩

theorem forM {l : List β} {g : β → Analysis Unit} (h : ∀ b, Goes R (g b)) :
    Goes R (l.forM g) := by
  induction l with
  | nil => exact .pure ()
  | cons b l ih => exact .bind (h b) fun _ ↦ ih

theorem reading {r : Reading α} (h : r.Composed) : Goes R (reading r) := by
  intro s a s' ha
  obtain ⟨cursor, hr, rfl⟩ := reading_ok ha
  exact State.Passable.of_still ⟨⟨h.onward hr, .refl _⟩, rfl⟩

theorem accepts (construct : Construct) : Goes R (accepts construct) := by
  intro s b s' h
  obtain ⟨_, h, -⟩ := map_ok h
  obtain ⟨cursor, hr, rfl⟩ := reading_ok h
  exact State.Passable.of_still ⟨⟨Reading.accept_onward hr, .refl _⟩, rfl⟩

theorem assemble {g : Assembler → Assembler} (h : ∀ a : Assembler, a.Preserves (g a)) :
    Goes R (assemble g) := by
  rintro s _ _ ⟨⟩
  exact State.Passable.of_still ⟨⟨⟨[], .refl _⟩, h _⟩, rfl⟩

theorem filling {g : Assembler → Option Assembler}
    (h : ∀ {a a' : Assembler}, g a = some a' → a.Preserves a') : Goes R (filling g) := by
  intro s _ s' hs
  obtain ⟨a, ha, rfl⟩ := filling_ok hs
  exact State.Passable.of_still ⟨⟨⟨[], .refl _⟩, h ha⟩, rfl⟩

theorem modifyEnvironment (g : Environment → Environment) : Goes R (modifyEnvironment g) :=
  .of_same <| by rintro s _ _ ⟨⟩; exact ⟨rfl, rfl, rfl⟩

/-- A change of the bookkeeping that takes no slots. -/
theorem modifyFrame {g : Frame → Frame} (h : ∀ f : Frame, (g f).slotCount = f.slotCount) :
    Goes R (modifyFrame g) :=
  .of_same <| by rintro s _ _ ⟨⟩; exact ⟨rfl, rfl, h s.frame⟩

theorem get : Goes R (get : Analysis State) :=
  .of_same <| by rintro s _ _ ⟨⟩; exact ⟨rfl, rfl, rfl⟩

theorem warn (remark : Remark) (span : Span) : Goes R (warn remark span) :=
  .of_same <| by rintro s _ _ ⟨⟩; exact ⟨rfl, rfl, rfl⟩

theorem frame : Goes R frame := .bind .get fun _ ↦ .pure _

theorem emit (op : Opcode) : Goes R (emit op) := .assemble fun a ↦ a.preserves_opcode op

theorem emitWord (w : UInt32) : Goes R (emitWord w) := .assemble fun a ↦ a.preserves_word w

theorem emitNumber (n : Nat) : Goes R (emitNumber n) := .emitWord _

theorem reserve : Goes R reserve := by
  rintro s _ _ ⟨⟩
  exact State.Passable.of_still
    ⟨⟨⟨[], .refl _⟩, s.assembler.preserves_appendHole⟩, rfl⟩

theorem reserveCount : Goes R reserveCount := by
  rintro s _ _ ⟨⟩
  exact State.Passable.of_still
    ⟨⟨⟨[], .refl _⟩, s.assembler.preserves_appendHole⟩, rfl⟩

theorem require (condition : Bool) (cause : Cause) : Goes R (require condition cause span) :=
  .ite (.pure ()) (.throw _)

theorem demand (value? : Option α) (cause : Cause) : Goes R (demand value? cause span) := by
  cases value? with
  | none => exact .throw _
  | some a => exact .pure a

theorem lift (x : Except Fault α) : Goes R (lift x) := by
  cases x with
  | error fault => exact .throw _
  | ok a => exact .pure a

theorem declare (v : Variable) : Goes R (declare v) := by
  refine .of_same fun s u s' h ↦ ?_
  unfold Analysis.declare at h
  split at h
  · cases h
    exact ⟨rfl, rfl, rfl⟩
  · cases h

theorem resolve? (x : String) : Goes R (resolve? x) := .bind .get fun _ ↦ .pure _

theorem requireUndeclared (x : String) : Goes R (requireUndeclared x span) :=
  .bind .get fun _ ↦ .require _ _

theorem emitAccess (storage : Storage) (action : Access) (slot : Nat) :
    Goes R (emitAccess storage action slot) :=
  .bind (.emit _) fun _ ↦
    .ite (.bind (.modifyFrame fun _ ↦ rfl) fun _ ↦ .emitNumber _) (.emitNumber _)

theorem recommendFrozen (candidates : List Variable) :
    Goes R (recommendFrozen Γ candidates) :=
  .ite (.forM fun _ ↦ .warn _ _) (.pure ())

theorem requireComplete : Goes R (requireComplete Γ span) :=
  .ite (.bind .get fun _ ↦ .lift _) (.pure ())

theorem enterConditional (withFields : Bool) : Goes R (enterConditional withFields) :=
  .bind .get fun _ ↦ .ite (.bind (.throw _) fun _ ↦ .modifyEnvironment _) (.modifyEnvironment _)

theorem leaveConditional (withFields : Bool) : Goes R (leaveConditional withFields) :=
  .bind .get fun _ ↦ .bind (.modifyEnvironment _) fun _ ↦ .pure _

theorem enterBlock (withFields : Bool) : Goes R (enterBlock withFields) :=
  .bind (.enterConditional _) fun _ ↦ .modifyFrame fun _ ↦ rfl

theorem leaveBlock (withFields : Bool) : Goes R (leaveBlock withFields) :=
  .bind (.leaveConditional _) fun _ ↦ .bind (.modifyFrame fun _ ↦ rfl) fun _ ↦ .pure _

theorem leaveScope : Goes R (leaveScope Γ) := by
  refine .bind .get fun s ↦ ?_
  split
  · exact .bind (.modifyEnvironment _) fun _ ↦ .recommendFrozen _
  · exact .pure ()

theorem deadPlace? : Goes R deadPlace? := by
  rw [Analysis.deadPlace?, map_eq_pure_bind]
  exact .bind (.bind .frame fun _ ↦ .ite (.bind .get fun _ ↦ .pure _) (.pure _)) fun _ ↦ .pure _

theorem leaveBody (first outerSlots : Nat) :
    Goes R (leaveBody Γ first outerSlots span) :=
  .bind .get fun _ ↦ .bind (.recommendFrozen _) fun _ ↦ .bind .frame fun _ ↦
    .bind (.require _ _) fun _ ↦ .bind .requireComplete fun _ ↦ .bind .frame fun _ ↦
    .bind (.require _ _) fun _ ↦ .bind .frame fun _ ↦ .pure _

theorem step {m : Analysis α} (h : Step m) : Goes R m := by
  cases h with
  | pure a => exact .pure a
  | throw fault => exact .throw fault
  | reading h => exact .reading h
  | here | remaining | frame => exact .bind .get fun _ ↦ .pure _
  | deadPlace? => exact .deadPlace?
  | setLine line => exact .assemble fun a ↦ a.preserves_atLine line
  | emit => exact .emit _
  | emitWord w => exact .emitWord w
  | reserve => exact .reserve
  | reserveCount => exact .reserveCount
  | fill => exact .filling Assembler.preserves_fill?
  | fillOpcode => exact .filling Assembler.preserves_fillOpcode?
  | fillCount => exact .filling Assembler.preserves_fillCount?
  | warn => exact .warn _ _
  | intern => exact .of_same <| by rintro s _ _ ⟨⟩; exact ⟨rfl, rfl, rfl⟩
  | modifyFrame h => exact .modifyFrame fun f ↦ (h f).1
  | requireComplete => exact .requireComplete
  | enterScope | settleEach => exact .modifyEnvironment _
  | leaveScope => exact .leaveScope

omit [State.Passable R] in
/-- The next slot is taken. -/
theorem newSlot [State.Granting R] : Goes R (newSlot Γ span) := by
  intro s slot s' h
  rcases newSlot_cases Γ span s with hok | ⟨fault, -, herror⟩
  · cases hok.symm.trans h
    exact State.Granting.of_along ⟨.of_same rfl rfl, Nat.le_succ _⟩
  · cases herror.symm.trans h

end Goes

/-- Neither the variables nor the slots matter for going onward. -/
theorem GoesOnward.modify {g : State → State}
    (h : ∀ s, (g s).cursor = s.cursor ∧ (g s).assembler = s.assembler) :
    GoesOnward (modify g : Analysis Unit) := by
  rintro s _ _ ⟨⟩
  exact .of_same (h s).1 (h s).2

theorem GoesOnward.modifyFrame (g : Frame → Frame) : GoesOnward (modifyFrame g) :=
  .modify fun _ ↦ ⟨rfl, rfl⟩

end Analysis

/-! ## Passing through queries -/

/-- Every analysis of an expression goes a certain way. -/
def Recursion.Goes (R : State → State → Prop) (rec : Recursion) : Prop :=
  ∀ Γ token hint, Analysis.Goes R (rec Γ token hint)

/-- Every analysis of an expression goes onward. -/
abbrev Recursion.GoesOnward (rec : Recursion) : Prop := rec.Goes State.Onward

/-- One query is answered in front of another one. -/
def Recursion.Precedes (R : State → State → Prop) (rec : Recursion) (q q' : Query) : Prop :=
  ∀ t s, rec.answer q = .ok t s → R s q'.state

/-- An analysis depends on the queries that it asks alone. It goes onward to each of them and, once
that is answered, from there, and it asks them one behind the other. -/
structure Traverses {α : Type} (R : State → State → Prop) (rec : Recursion)
    (m : Recursion → Analysis α) : Prop where
  onward : (m rec).Goes R
  depends : ∀ {s} {rec' : Recursion}, (∀ q, Asks rec m s q → rec'.answer q = rec.answer q) →
    m rec' s = m rec s
  through : ∀ {s q}, Asks rec m s q → R s q.state
    ∧ ∀ t s₁ a s', rec.answer q = .ok t s₁ → m rec s = .ok a s' → R s₁ s'
  apart : ∀ {s q q'}, Asks rec m s q → Asks rec m s q' →
    q = q' ∨ rec.Precedes R q q' ∨ rec.Precedes R q' q

/-- A step that asks nothing asks no query. -/
theorem Asks.not_const {α : Type} {rec : Recursion} {x : Analysis α} {s : State} {q : Query} :
    ¬ Asks rec (fun _ ↦ x) s q := by
  intro h
  cases (h.eq_error .exhausted).symm.trans (h.eq_error .misfilled)

/-- What is asked behind a step that asks nothing is asked in the state behind it. -/
theorem Asks.of_const_bind {α β : Type} {rec : Recursion} {x : Analysis α}
    {f : Recursion → α → Analysis β} {s : State} {q : Query}
    (h : Asks rec (fun r ↦ x >>= f r) s q) :
    ∃ a s₁, x s = .ok a s₁ ∧ Asks rec (fun r ↦ f r a) s₁ q := by
  cases hx : x s with
  | error fault s₁ =>
    have hfault (fault' : Fault) : EStateM.Result.error (ε := Fault) (α := β) fault s₁
        = .error fault' q.state :=
      (Analysis.bind_of_error hx).symm.trans (h.eq_error fault')
    cases (hfault .exhausted).symm.trans (hfault .misfilled)
  | ok a s₁ =>
    exact ⟨a, s₁, rfl, fun rec' fault s' hother hself ↦
      (Analysis.bind_of_ok hx).symm.trans (h rec' fault s' hother hself)⟩

/-- What is asked inside an expression that asks for a construct, the construct asks. -/
theorem Asks.begun {rec : Recursion} {q q' : Query} {asked : Construct}
    (h : Asks rec (fun r ↦ Analysis.expressionStep r q.setting q.token q.hint) q.state q')
    (hasks : q.token.asksFor asked) (hasked : asked ≠ .returning) :
    Asks rec (fun r ↦ Analysis.construct q.setting r q.token asked.spelling q.hint) q.begun q' := by
  simp only [expressionStep_of_asksFor hasks hasked] at h
  obtain ⟨_, s₁, hline, h⟩ := h.of_const_bind
  cases hline
  obtain ⟨_, s₂, hframe, h⟩ := h.of_const_bind
  cases hframe
  exact h

/-- What a construct asks, the expression that asks for it asks. -/
theorem Asks.of_begun {rec : Recursion} {q q' : Query} {asked : Construct}
    (hasks : q.token.asksFor asked) (hasked : asked ≠ .returning)
    (h : Asks rec (fun r ↦ Analysis.construct q.setting r q.token asked.spelling q.hint) q.begun
      q') : Asks rec (fun r ↦ Analysis.expressionStep r q.setting q.token q.hint) q.state q' := by
  simp only [expressionStep_of_asksFor hasks hasked]
  exact .behind rfl (.behind rfl h)

/-- A query asks itself, and nothing else. -/
theorem Asks.eq_of_call {rec : Recursion} {Γ : Setting} {token : Token} {hint : Option Ty}
    {s : State} {q : Query} (h : Asks rec (fun r ↦ r Γ token hint) s q) :
    q = ⟨Γ, token, hint, s⟩ := by
  by_contra hne
  have hfault (fault : Fault) : rec.answer ⟨Γ, token, hint, s⟩ = .error fault q.state :=
    (Recursion.answer_failingAt_of_ne (Ne.symm hne)).symm.trans (h.eq_error fault)
  cases (hfault .exhausted).symm.trans (hfault .misfilled)

/-- A frame is entered in front of an analysis and left behind it. -/
theorem Analysis.inFrame_eq_bind {α : Type} (m : Analysis α) : Analysis.inFrame m = (do
    let outer ← get
    modify fun s ↦ { s with environment := .start s.environment.fields, frame := {} }
    let value ← m
    modify fun inner ↦ { inner with
      environment := { outer.environment with fields := inner.environment.fields }
      frame := outer.frame }
    return value) := rfl

namespace Traverses

open Analysis

variable {R : State → State → Prop} {α β : Type} {rec : Recursion} {q : Query}
  {m : Recursion → Analysis α} {f : Recursion → α → Analysis β} {Γ : Setting} {span : Span}
  {s : State}

/-- Queries that are not asked make no difference. -/
theorem eq_of_not_asks (h : Traverses R rec m) (hq : ¬ Asks rec m s q) {rec' : Recursion}
    (hrec' : ∀ q', q' ≠ q → rec'.answer q' = rec.answer q') : m rec' s = m rec s :=
  h.depends fun q' hq' ↦ hrec' q' fun heq ↦ hq (heq ▸ hq')

/-- What is asked in two steps is asked in the first one or, if that succeeds, in the second one. -/
theorem asks_bind (h : Traverses R rec m) (hq : Asks rec (fun r ↦ m r >>= f r) s q) :
    Asks rec m s q ∨ ∃ a s₁, m rec s = .ok a s₁ ∧ Asks rec (fun r ↦ f r a) s₁ q := by
  by_contra hnot
  obtain ⟨hfirst, hrest⟩ := not_or.mp hnot
  cases hm : m rec s with
  | error e s₁ =>
    have hfault (fault : Fault) : EStateM.Result.error (ε := Fault) (α := β) e s₁
        = .error fault q.state :=
      (bind_of_error ((h.eq_of_not_asks hfirst fun q' hq' ↦
        Recursion.answer_failingAt_of_ne hq').trans hm)).symm.trans (hq.eq_error fault)
    cases (hfault .exhausted).symm.trans (hfault .misfilled)
  | ok a s₁ =>
    refine hrest ⟨a, s₁, hm, fun rec' fault s' hother hself ↦ ?_⟩
    exact (bind_of_ok ((h.eq_of_not_asks hfirst hother).trans hm)).symm.trans
      (hq rec' fault s' hother hself)

/-- What is asked in front of steps that ask nothing. -/
theorem asks_of_bind_const (h : Traverses R rec m) {x : α → Analysis β}
    (hq : Asks rec (fun r ↦ m r >>= x) s q) : Asks rec m s q :=
  (h.asks_bind hq).elim id fun ⟨_, _, _, hq⟩ ↦ absurd hq Asks.not_const

/-- What is asked behind a step that succeeds is asked. -/
theorem asks_behind (h : Traverses R rec m) {a : α} {s₁ : State} (ha : m rec s = .ok a s₁)
    (hq : Asks rec (fun r ↦ f r a) s₁ q) : Asks rec (fun r ↦ m r >>= f r) s q := by
  by_cases hfirst : Asks rec m s q
  · exact hfirst.first
  · intro rec' fault s' hother hself
    exact (bind_of_ok ((h.eq_of_not_asks hfirst hother).trans ha)).trans
      (hq rec' fault s' hother hself)

/-- A step that asks nothing. -/
theorem const {x : Analysis α} (h : x.Goes R) : Traverses R rec fun _ ↦ x :=
  ⟨h, fun _ ↦ rfl, fun hq ↦ absurd hq Asks.not_const, fun hq ↦ absurd hq Asks.not_const⟩

theorem ite {c : Prop} [Decidable c] {m' : Recursion → Analysis α} (h : Traverses R rec m)
    (h' : Traverses R rec m') : Traverses R rec fun r ↦ if c then m r else m' r := by
  by_cases hc : c
  · simpa only [if_pos hc] using h
  · simpa only [if_neg hc] using h'

variable [State.Passable R]

theorem pure (a : α) : Traverses R rec fun _ ↦ (pure a : Analysis α) := .const (.pure a)

theorem bind (h : Traverses R rec m) (h' : ∀ a, Traverses R rec fun r ↦ f r a) :
    Traverses R rec fun r ↦ m r >>= f r where
  onward := h.onward.bind fun a ↦ (h' a).onward
  depends {s rec'} hrec' := by
    have hfirst : m rec' s = m rec s := h.depends fun q hq ↦ hrec' q hq.first
    cases hm : m rec s with
    | error e s₁ => exact (bind_of_error (hfirst.trans hm)).trans (bind_of_error hm).symm
    | ok a s₁ =>
      have hbehind : f rec' a s₁ = f rec a s₁ :=
        (h' a).depends fun q hq ↦ hrec' q (h.asks_behind hm hq)
      exact (bind_of_ok (hfirst.trans hm)).trans (hbehind.trans (bind_of_ok hm).symm)
  through {s q} hq := by
    rcases h.asks_bind hq with hq | ⟨a, s₁, ha, hq⟩
    · obtain ⟨hto, hfrom⟩ := h.through hq
      refine ⟨hto, fun t s₂ b s' hanswer hb ↦ ?_⟩
      obtain ⟨a, s₁, ha, hb⟩ := bind_ok hb
      exact State.Passable.trans (hfrom t s₂ a s₁ hanswer ha) ((h' a).onward s₁ b s' hb)
    · obtain ⟨hto, hfrom⟩ := (h' a).through hq
      refine ⟨State.Passable.trans (h.onward _ a s₁ ha) hto, fun t s₂ b s' hanswer hb ↦ ?_⟩
      exact hfrom t s₂ b s' hanswer ((bind_of_ok ha).symm.trans hb)
  apart {s q q'} hq hq' := by
    -- what the first step asks precedes what the second one asks
    have hprecedes {q q' : Query} {a : α} {s₁ : State} (hq : Asks rec m s q)
        (ha : m rec s = .ok a s₁) (hq' : Asks rec (fun r ↦ f r a) s₁ q') : rec.Precedes R q q' :=
      fun t s₂ hanswer ↦
        State.Passable.trans ((h.through hq).2 t s₂ a s₁ hanswer ha) ((h' a).through hq').1
    rcases h.asks_bind hq with hq | ⟨a, s₁, ha, hq⟩ <;>
      rcases h.asks_bind hq' with hq' | ⟨a', s₁', ha', hq'⟩
    · exact h.apart hq hq'
    · exact .inr (.inl (hprecedes hq ha' hq'))
    · exact .inr (.inr (hprecedes hq' ha hq))
    · cases ha.symm.trans ha'
      exact (h' a).apart hq hq'

theorem call (hrec : rec.Goes R) {token : Token} {hint : Option Ty} :
    Traverses R rec fun r ↦ r Γ token hint where
  onward := hrec Γ token hint
  depends hrec' := hrec' _ .call
  through {s q} hq := by
    obtain rfl := hq.eq_of_call
    refine ⟨State.Passable.refl s, fun t s₁ a s' hanswer ha ↦ ?_⟩
    cases hanswer.symm.trans ha
    exact State.Passable.refl s₁
  apart hq hq' := .inl (hq.eq_of_call.trans hq'.eq_of_call.symm)

theorem inScope (h : Traverses R rec m) : Traverses R rec fun r ↦ inScope Γ (m r) := by
  simp only [Composed.inScope_eq]
  exact .bind (.const (.modifyEnvironment _)) fun _ ↦ .bind h fun _ ↦
    .bind (.const .leaveScope) fun _ ↦ .pure _

theorem inBlock {m : Recursion → Analysis Unit} (h : Traverses R rec m) (withFields : Bool) :
    Traverses R rec fun r ↦ inBlock withFields (m r) :=
  .bind (.const (.enterBlock _)) fun _ ↦ .bind h fun _ ↦ .const (.leaveBlock _)

/-- Neither the place in the body nor the code belongs to a frame. -/
theorem inFrame (h : Traverses State.Onward rec m) :
    Traverses State.Onward rec fun r ↦ inFrame (m r) := by
  have hmodify (g : State → State)
      (hg : ∀ s, (g s).cursor = s.cursor ∧ (g s).assembler = s.assembler) :
      Analysis.GoesOnward (modify g : Analysis Unit) := by
    rintro s _ _ ⟨⟩
    exact .of_same (hg s).1 (hg s).2
  simp only [inFrame_eq_bind]
  exact .bind (.const .get) fun _ ↦ .bind (.const (hmodify _ fun _ ↦ ⟨rfl, rfl⟩)) fun _ ↦
    .bind h fun _ ↦ .bind (.const (hmodify _ fun _ ↦ ⟨rfl, rfl⟩)) fun _ ↦ .pure _

theorem operand (hrec : rec.Goes R) : Traverses R rec fun r ↦ operand Γ r :=
  .bind (.const (.reading .next)) fun _ ↦ .call hrec

theorem operandFitting (hrec : rec.Goes R) (expected : Ty) :
    Traverses R rec fun r ↦ operandFitting Γ r expected :=
  .bind (.const (.reading .next)) fun _ ↦ .bind (.call hrec) fun _ ↦
    .bind (.const (.require _ _)) fun _ ↦ .pure _

end Traverses

/-! ### Variables -/

namespace Traverses

open Analysis

variable {R : State → State → Prop} [State.Granting R] {α : Type} {rec : Recursion}
  {m : Recursion → Analysis α} {Γ : Setting} {span : Span}

theorem storeNew (hrec : rec.Goes R) (x : String) : Traverses R rec fun r ↦ storeNew Γ r x span :=
  .bind (.const (.emit _)) fun _ ↦ .bind (.const .newSlot) fun _ ↦
    .bind (.const (.emitNumber _)) fun _ ↦ .bind (.operand hrec) fun _ ↦ .pure _

theorem assign (hrec : rec.Goes R) : Traverses R rec fun r ↦ assign Γ r := by
  refine .bind (.const (.reading .variableName)) fun _ ↦ .bind (.const (.resolve? _)) fun v? ↦ ?_
  dsimp only
  split
  · exact .bind (.storeNew hrec _) fun _ ↦ .bind (.const (.declare _)) fun _ ↦ .pure _
  · exact .bind (.const (.lift _)) fun _ ↦ .bind (.const (.modifyEnvironment _)) fun _ ↦
      .bind (.const (.emitAccess _ _ _)) fun _ ↦ .bind (.operandFitting hrec _) fun _ ↦
      .bind (.const (.modifyEnvironment _)) fun _ ↦ .pure _

theorem declareFrozen (hrec : rec.Goes R) : Traverses R rec fun r ↦ declareFrozen Γ r :=
  .bind (.const (.reading .variableName)) fun _ ↦ .bind (.const (.requireUndeclared _)) fun _ ↦
    .bind (.storeNew hrec _) fun _ ↦ .bind (.const (.declare _)) fun _ ↦ .pure _

theorem condition (hrec : rec.Goes R) : Traverses R rec fun r ↦ condition Γ r := by
  refine .bind (.const (.accepts _)) fun _ ↦
    .ite ?_ (.bind (.operandFitting hrec _) fun _ ↦ .pure _)
  exact .bind (.const (.reading .variableName)) fun _ ↦
    .bind (.const (.requireUndeclared _)) fun _ ↦ .bind (.const (.emit _)) fun _ ↦
    .bind (.const .newSlot) fun _ ↦ .bind (.const (.emitNumber _)) fun _ ↦
    .bind (.const (.bind .get fun _ ↦ .pure _)) fun _ ↦
    .bind (.operand hrec) fun _ ↦ .bind (.const (.require _ _)) fun _ ↦ .const (.declare _)

theorem forIn (hrec : rec.Goes R) (h : Traverses R rec fun r ↦ conditionalBlock Γ r) :
    Traverses R rec fun r ↦ forIn Γ r span := by
  refine .bind (.const .reserve) fun _ ↦ .bind (.const (.reading .variableName)) fun _ ↦
    .bind (.inScope ?_) fun _ ↦ .pure _
  exact .bind (.const .newSlot) fun _ ↦ .bind (.const (.emitNumber _)) fun _ ↦
    .bind (.const .newSlot) fun _ ↦ .bind (.const (.emitNumber _)) fun _ ↦
    .bind (.operandFitting hrec _) fun _ ↦ .bind (.const (.demand _ _)) fun _ ↦
    .bind (.const (.filling Assembler.preserves_fillOpcode?)) fun _ ↦
    .bind (.const (.declare _)) fun _ ↦ h

/-- Whatever is put together from steps and expressions passes through its queries. -/
theorem composed {W : Construct → Prop} (hrec : rec.Goes R) (h : Composed W m) :
    Traverses R rec m := by
  induction h with
  | step h => exact .const (.step h)
  | bind _ _ ih ih' => exact ih.bind ih'
  | expression Γ hint _ hbefore =>
    refine .bind (.const (.reading .next)) fun _ ↦ .ite (.pure _) ?_
    exact .bind (.const (.modifyFrame fun f ↦ (hbefore f).1)) fun _ ↦
      .bind (.call hrec) fun _ ↦ .pure _
  | inBlock _ _ ih => exact ih.inBlock _
  | readVariable =>
    exact .const <| .bind (.resolve? _) fun _ ↦ .bind (.demand _ _) fun _ ↦ .bind (.lift _) fun _ ↦
      .bind (.emitAccess _ _ _) fun _ ↦ .pure _
  | stepVariable =>
    exact .const <| .bind (.reading .variableName) fun _ ↦ .bind (.resolve? _) fun _ ↦
      .bind (.demand _ _) fun _ ↦ .bind (.lift _) fun _ ↦ .bind (.require _ _) fun _ ↦
      .bind (.lift _) fun _ ↦ .bind (.modifyEnvironment _) fun _ ↦
      .bind (.emitAccess _ _ _) fun _ ↦ .pure _
  | declareVariable Γ =>
    exact .const <| .bind (.reading .variableName) fun _ ↦ .bind (.requireUndeclared _) fun _ ↦
      .bind (.reading (Γ.catalogue.composed_annotated _ _ _)) fun _ ↦ .bind .newSlot fun _ ↦
      .bind (.declare _) fun _ ↦ .pure _
  | assign => exact .assign hrec
  | declareFrozen => exact .declareFrozen hrec
  | condition => exact .condition hrec
  | forIn _ _ _ _ ih => exact .forIn hrec ih

end Traverses

/-! ## Closures -/

namespace Analysis

/-- What a closure does in front of its body. -/
def openClosure (Γ : Setting) : Analysis ((List Argument × Ty) × (Hole × CountHole)) := do
  let arguments ← closureArguments Γ
  let result ← closureResult Γ
  emit .closure
  let slots ← reserve
  let count ← reserveCount
  return ((arguments, result), (slots, count))

/-- Analyses the body of a closure, which takes over the frame around it. -/
def enclosed (Γ : Setting) (rec : Recursion) (arguments : List Argument) (result : Ty) :
    Analysis (Summary × Nat) := do
  let outer ← get
  let summary ← inFrame (body (Γ.ofClosure result) rec arguments outer.environment.visible
    outer.frame.slotCount)
  return (summary, outer.frame.slotCount)

/-- What a closure does behind its body. -/
def closeClosure (slots : Hole) (count : CountHole) (arguments : List Argument) (result : Ty)
    (summary : Summary) (outerSlots : Nat) : Analysis Ty := do
  fillCount count
  if summary.usesSelf then
    useSelf
    emitWord (UInt32.ofNat arguments.length ||| selfFlag)
  else
    emitWord (UInt32.ofNat arguments.length)
  emitNumber outerSlots
  fill slots (UInt32.ofNat summary.slotCount)
  return .callable result (arguments.map (·.type))

theorem closure_eq (Γ : Setting) (rec : Recursion) : closure Γ rec = (do
    let opened ← openClosure Γ
    let inner ← enclosed Γ rec opened.1.1 opened.1.2
    closeClosure opened.2.1 opened.2.2 opened.1.1 opened.1.2 inner.1 inner.2) := by
  -- the slots are counted in the state whose variables are taken over
  have hget (k : State → Frame → Analysis Ty) :
      (get >>= fun s ↦ frame >>= fun f ↦ k s f) = get >>= fun s ↦ k s s.frame := rfl
  simp only [closure, openClosure, enclosed, closeClosure, Setting.ofClosure, hget, bind_assoc,
    pure_bind]

variable {R : State → State → Prop} [State.Granting R] {Γ : Setting}

theorem Goes.openClosure : Goes R (openClosure Γ) := by
  -- no expression is asked for, so it does not matter how expressions are analysed
  have hrec : (expression 0).Goes R := fun _ _ _ ↦ .throw _
  exact .bind (Traverses.composed (W := fun _ ↦ True) hrec
      composed_closureArguments).onward fun _ ↦
    .bind (Traverses.composed (W := fun _ ↦ True) hrec composed_closureResult).onward fun _ ↦
    .bind (.emit _) fun _ ↦ .bind .reserve fun _ ↦ .bind .reserveCount fun _ ↦ .pure _

theorem Goes.closeClosure {slots : Hole} {count : CountHole} {arguments : List Argument}
    {result : Ty} {summary : Summary} {outerSlots : Nat} :
    Goes R (closeClosure slots count arguments result summary outerSlots) := by
  refine .bind (.filling Assembler.preserves_fillCount?) fun _ ↦
    .ite (.bind (.modifyFrame fun _ ↦ rfl) fun _ ↦ .bind (.emitWord _) fun _ ↦ ?_)
      (.bind (.emitWord _) fun _ ↦ ?_)
  all_goals
    exact .bind (.emitNumber _) fun _ ↦ .bind (.filling Assembler.preserves_fill?) fun _ ↦ .pure _

end Analysis

/-! ## Frames of their own -/

namespace Analysis

/-- Analyses a body up to and including its end, without the checks that follow. Returns the first
of the slots taken over and the place of the end. -/
def bodyToEnd (Γ : Setting) (rec : Recursion) (arguments : List Argument)
    (captured : List Variable) (outerSlots : Nat) : Analysis (Nat × Span) := do
  let span ← here
  arguments.forM (declareArgument Γ span)
  let first ← takeOver Γ span captured outerSlots
  let ending ← bodyStatements Γ rec
  return (first, ending)

theorem body_eq {Γ : Setting} {arguments : List Argument} {captured : List Variable}
    {outerSlots : Nat} (rec : Recursion) : body Γ rec arguments captured outerSlots
    = bodyToEnd Γ rec arguments captured outerSlots >>= fun (first, ending) ↦
      leaveBody Γ first outerSlots ending := by
  simp only [body, bodyToEnd, bind_assoc, pure_bind]

end Analysis

namespace Traverses

open Analysis

variable {rec : Recursion} {Γ : Setting}

theorem bodyToEnd (hrec : rec.GoesOnward) (arguments : List Argument) (captured : List Variable)
    (outerSlots : Nat) :
    Traverses State.Onward rec fun r ↦ bodyToEnd Γ r arguments captured outerSlots := by
  refine .bind (.const (.bind .get fun _ ↦ .pure _)) fun _ ↦
    .bind (.const (.forM fun _ ↦ ?_)) fun _ ↦ .bind (.const ?_) fun _ ↦
    .bind (.composed (W := fun _ ↦ True) hrec composed_bodyStatements) fun _ ↦ .pure _
  · exact .bind .newSlot fun _ ↦ .declare _
  · refine .bind .frame fun _ ↦ .ite (.bind (.forM fun _ ↦ ?_) fun _ ↦
      .bind (GoesOnward.modifyFrame _) fun _ ↦ .pure _) (.pure _)
    exact .bind .get fun _ ↦ .ite (.bind (.require _ _) fun _ ↦ .declare _) (.pure _)

theorem body (hrec : rec.GoesOnward) (arguments : List Argument) (captured : List Variable)
    (outerSlots : Nat) :
    Traverses State.Onward rec fun r ↦ body Γ r arguments captured outerSlots := by
  simp only [body_eq]
  exact .bind (.bodyToEnd hrec _ _ _) fun _ ↦ .const (.leaveBody _ _)

theorem enclosed (hrec : rec.GoesOnward) (arguments : List Argument) (result : Ty) :
    Traverses State.Onward rec fun r ↦ enclosed Γ r arguments result :=
  .bind (.const .get) fun _ ↦ .bind (.inFrame (.body hrec _ _ _)) fun _ ↦ .pure _

theorem closure (hrec : rec.GoesOnward) : Traverses State.Onward rec fun r ↦ closure Γ r := by
  simp only [closure_eq]
  exact .bind (.const .openClosure) fun _ ↦ .bind (.enclosed hrec _ _) fun _ ↦
    .const .closeClosure

theorem expressionStep (hrec : rec.GoesOnward) (Γ : Setting) (token : Token) (hint : Option Ty) :
    Traverses State.Onward rec fun r ↦ expressionStep r Γ token hint := by
  cases h : token.asksFor .blockOpen with
  | false =>
    exact .composed hrec
      (composed_expressionStep (W := fun _ ↦ True) h (fun _ _ ↦ trivial) hint)
  | true =>
    simp only [expressionStep_of_asksFor h nofun]
    exact .bind (.const (.step (.setLine _))) fun _ ↦
      .bind (.const (.modifyFrame fun _ ↦ rfl)) fun _ ↦ .closure hrec

end Traverses

/-- Every expression is analysed going onward. -/
theorem Analysis.goesOnward_expression (fuel : Nat) : (expression fuel).GoesOnward := by
  induction fuel with
  | zero => exact fun _ _ _ ↦ .throw _
  | succ fuel ih => exact fun Γ token hint ↦ (Traverses.expressionStep ih Γ token hint).onward

/-- How an expression gets through the expressions inside it. -/
theorem Query.traverses (q : Query) (n : Nat) : Traverses State.Onward (Analysis.expression n)
    fun r ↦ Analysis.expressionStep r q.setting q.token q.hint :=
  .expressionStep (Analysis.goesOnward_expression n) _ _ _

/-! ## More answers -/

/-- What is answered in one way is answered alike in another one. -/
def Recursion.Within (rec rec' : Recursion) : Prop :=
  ∀ q t s, rec.answer q = .ok t s → rec'.answer q = .ok t s

theorem Recursion.Goes.of_within {R : State → State → Prop} {rec rec' : Recursion}
    (h : rec'.Goes R) (hw : rec.Within rec') : rec.Goes R :=
  fun Γ token hint s t s' ht ↦ h Γ token hint s t s' (hw ⟨Γ, token, hint, s⟩ t s' ht)

/-- A run that succeeds does not change if more is answered. -/
theorem Traverses.eq_of_within {R : State → State → Prop} {α : Type} {rec rec' : Recursion}
    {m : Recursion → Analysis α} {s s' : State} {a : α} (h : Traverses R rec m)
    (hw : rec.Within rec') (hrun : m rec s = .ok a s') : m rec' s = .ok a s' := by
  refine (h.depends fun q hq ↦ ?_).trans hrun
  obtain ⟨t, s₁, hanswer⟩ := hq.answered hrun
  exact (hw q t s₁ hanswer).trans hanswer.symm

namespace Analysis

/-- An expression that is analysed with so many levels of nesting is so with one more. -/
theorem expression_within_succ (n : Nat) : (expression n).Within (expression (n + 1)) := by
  induction n with
  | zero => exact fun _ _ _ h ↦ nomatch h
  | succ n ih => exact fun q _ _ h ↦ (q.traverses n).eq_of_within ih h

theorem expression_within {n n' : Nat} (hn : n ≤ n') : (expression n).Within (expression n') := by
  induction hn with
  | refl => exact fun _ _ _ h ↦ h
  | @step k _ ih => exact fun q t s h ↦ expression_within_succ k q t s (ih q t s h)

/-- Two runs that succeed, with levels of nesting of their own, end alike. -/
theorem eq_of_runs {α : Type} {m : Recursion → Analysis α} {n n' : Nat} {s s₁ s₂ : State} {a b : α}
    (hm : ∀ n, Traverses State.Onward (expression n) m) (h : m (expression n) s = .ok a s₁)
    (h' : m (expression n') s = .ok b s₂) : a = b ∧ s₁ = s₂ := by
  have h₁ := (hm n).eq_of_within (expression_within (Nat.le_max_left n n')) h
  have h₂ := (hm n').eq_of_within (expression_within (Nat.le_max_right n n')) h'
  cases h₁.symm.trans h₂
  exact ⟨rfl, rfl⟩

end Analysis

open Classical in
/-- A way to answer queries of which some are left unanswered. -/
noncomputable def Recursion.only (rec : Recursion) (p : Query → Prop) : Recursion :=
  fun Γ token hint s ↦ if p ⟨Γ, token, hint, s⟩ then rec Γ token hint s else .error .exhausted s

theorem Recursion.answer_only {rec : Recursion} {p : Query → Prop} {q : Query} (h : p q) :
    (rec.only p).answer q = rec.answer q := if_pos h

/-- Only what is to be answered is. -/
theorem Recursion.of_answer_only {rec : Recursion} {p : Query → Prop} {q : Query} {t : Ty}
    {s : State} (h : (rec.only p).answer q = .ok t s) : p q ∧ rec.answer q = .ok t s := by
  by_cases hp : p q
  · exact ⟨hp, (answer_only hp).symm.trans h⟩
  · exact nomatch (if_neg hp).symm.trans h

theorem Recursion.only_within (rec : Recursion) (p : Query → Prop) : (rec.only p).Within rec :=
  fun _ _ _ h ↦ (of_answer_only h).2

namespace Reaches

variable {α : Type} {m : Recursion → Analysis α} {fuel n n' : Nat} {s s' s₁ : State}
  {q q' : Query} {a : α} {t : Ty}

/-- **A run goes onward to every query it gets to, and onward from the answer.** -/
theorem onward (h : Reaches m fuel s n q) (hm : Traverses State.Onward (Analysis.expression fuel) m)
    (hrun : m (Analysis.expression fuel) s = .ok a s')
    (hanswer : (Analysis.expression n).answer q = .ok t s₁) : s.Onward q.state ∧ s₁.Onward s' := by
  induction h generalizing t s₁ with
  | @asked q hq =>
    obtain ⟨hto, hfrom⟩ := hm.through hq
    exact ⟨hto, hfrom t s₁ a s' hanswer hrun⟩
  | @nested n q q' h hq ih =>
    obtain ⟨t', s₂, hanswer'⟩ := h.answered hrun
    obtain ⟨hto, hfrom⟩ := ih hanswer'
    obtain ⟨hto', hfrom'⟩ := (q.traverses n).through hq
    exact ⟨hto.trans hto', (hfrom' t s₁ t' s₂ hanswer hanswer').trans hfrom⟩

end Reaches

/-! ## The order of queries -/

/-- A query is inside another one: the analysis of its expression gets there. -/
def Query.Leads (n : Nat) (q : Query) (n' : Nat) (q' : Query) : Prop :=
  ∃ k, n = k + 1 ∧ Reaches (fun r ↦ Analysis.expressionStep r q.setting q.token q.hint) k q.state
    n' q'

/-- One query is answered in front of another one, given how many levels of nesting are left. -/
def Query.Precedes (n : Nat) (q q' : Query) : Prop :=
  (Analysis.expression n).Precedes State.Onward q q'

namespace Reaches

variable {α : Type} {m : Recursion → Analysis α} {fuel n n' : Nat} {s s' : State}
  {q q' : Query} {a : α}

/-- What an analysis gets to is asked directly, or it is inside of what is. -/
theorem exists_asks (h : Reaches m fuel s n q) : ∃ q₁, Asks (Analysis.expression fuel) m s q₁
    ∧ (n = fuel ∧ q = q₁ ∨ q₁.Leads fuel n q) := by
  induction h with
  | @asked q hq => exact ⟨q, hq, .inl ⟨rfl, rfl⟩⟩
  | @nested n q q' h hq ih =>
    obtain ⟨q₁, hq₁, ⟨rfl, rfl⟩ | ⟨k, hk, hr⟩⟩ := ih
    · exact ⟨q, hq₁, .inr ⟨n, rfl, .asked hq⟩⟩
    · exact ⟨q₁, hq₁, .inr ⟨k, hk, .nested hr hq⟩⟩

/-- A run goes onward from a query to itself and to those inside it, and from their answers to its
own. -/
theorem onward_of_eq_or_leads {t₁ t : Ty} {s₁ s₂ : State}
    (h : n' = n ∧ q' = q ∨ q.Leads n n' q')
    (hrun : (Analysis.expression n).answer q = .ok t₁ s₁)
    (hanswer : (Analysis.expression n').answer q' = .ok t s₂) :
    q.state.Onward q'.state ∧ s₂.Onward s₁ := by
  rcases h with ⟨rfl, rfl⟩ | ⟨k, rfl, hr⟩
  · cases hanswer.symm.trans hrun
    exact ⟨.refl _, .refl _⟩
  · exact hr.onward (q.traverses k) hrun hanswer

/-- What is inside of two queries keeps their order. -/
theorem precedes_of_eq_or_leads {q₁ q₂ : Query} {t₁ t₂ t : Ty} {s₁ s₂ s₃ : State}
    (hq : n = fuel ∧ q = q₁ ∨ q₁.Leads fuel n q) (hq' : n' = fuel ∧ q' = q₂ ∨ q₂.Leads fuel n' q')
    (hanswer₁ : (Analysis.expression fuel).answer q₁ = .ok t₁ s₁)
    (hanswer₂ : (Analysis.expression fuel).answer q₂ = .ok t₂ s₂)
    (hanswer' : (Analysis.expression n').answer q' = .ok t s₃) (hbefore : q₁.Precedes fuel q₂) :
    q.Precedes n q' := by
  intro t' s₄ hanswer
  have hfrom : s₄.Onward s₁ := (onward_of_eq_or_leads hq hanswer₁ hanswer).2
  have hto : q₂.state.Onward q'.state := (onward_of_eq_or_leads hq' hanswer₂ hanswer').1
  exact hfrom.trans ((hbefore t₁ s₁ hanswer₁).trans hto)

/-- **Queries are nested or apart.** Of two queries that a run gets to one is inside the other, or
one is answered in front of the other, if they are not the same. -/
theorem nested_or_apart (h : Reaches m fuel s n q) (h' : Reaches m fuel s n' q')
    (hm : Traverses State.Onward (Analysis.expression fuel) m)
    (hrun : m (Analysis.expression fuel) s = .ok a s') :
    n = n' ∧ q = q' ∨ q.Leads n n' q' ∨ q'.Leads n' n q ∨ q.Precedes n q' ∨ q'.Precedes n' q := by
  induction fuel generalizing α m s s' a with
  | zero =>
    obtain ⟨q₁, hq₁, -⟩ := h.exists_asks
    obtain ⟨t, s₁, hanswer⟩ := hq₁.answered hrun
    cases hanswer
  | succ fuel ih =>
    obtain ⟨q₁, hq₁, hq⟩ := h.exists_asks
    obtain ⟨q₂, hq₂, hq'⟩ := h'.exists_asks
    obtain ⟨t₁, s₁, hanswer₁⟩ := hq₁.answered hrun
    obtain ⟨t₂, s₂, hanswer₂⟩ := hq₂.answered hrun
    rcases hm.apart hq₁ hq₂ with rfl | hbefore | hbefore
    · rcases hq with ⟨rfl, rfl⟩ | hq <;> rcases hq' with ⟨rfl, rfl⟩ | hq'
      · exact .inl ⟨rfl, rfl⟩
      · exact .inr (.inl hq')
      · exact .inr (.inr (.inl hq))
      · obtain ⟨k, hk, hq⟩ := hq
        obtain ⟨k', hk', hq'⟩ := hq'
        cases hk
        cases hk'
        exact ih hq hq' (q₁.traverses fuel) hanswer₁
    · obtain ⟨t, s₃, hanswer'⟩ := h'.answered hrun
      exact .inr (.inr (.inr (.inl
        (precedes_of_eq_or_leads hq hq' hanswer₁ hanswer₂ hanswer' hbefore))))
    · obtain ⟨t, s₃, hanswer⟩ := h.answered hrun
      exact .inr (.inr (.inr (.inr
        (precedes_of_eq_or_leads hq' hq hanswer₂ hanswer₁ hanswer hbefore))))

end Reaches

/-! ## Finding queries -/

/-- Analyses expressions, but refuses those that have a property in the state in which they end. -/
def Analysis.refusing (p : Query → State → Bool) : (fuel : Nat) → Recursion
  | 0 => fun _ _ _ ↦ throw .exhausted
  | fuel + 1 => fun Γ token hint s ↦
    match expressionStep (refusing p fuel) Γ token hint s with
    | .ok t s' => if p ⟨Γ, token, hint, s⟩ s' then .error .exhausted s' else .ok t s'
    | .error fault s' => .error fault s'

namespace Reaches

variable {α : Type} {m : Recursion → Analysis α} {fuel n : Nat} {s : State} {q q' : Query}
  {p : Query → State → Bool}

/-- What a query that is asked leads to is reached. -/
theorem inside (hq : Asks (Analysis.expression (fuel + 1)) m s q)
    (h : Reaches (fun r ↦ Analysis.expressionStep r q.setting q.token q.hint) fuel q.state n q') :
    Reaches m (fuel + 1) s n q' := by
  induction h with
  | asked hq' => exact .nested (.asked hq) hq'
  | nested _ hq' ih => exact .nested ih hq'

/-- If it makes a difference to a run that expressions with some property are refused, the run gets
to one of them. -/
theorem exists_of_refusing_ne (hm : Traverses State.Onward (Analysis.expression fuel) m)
    (h : m (Analysis.refusing p fuel) s ≠ m (Analysis.expression fuel) s) :
    ∃ n q t s', Reaches m fuel s n q ∧ (Analysis.expression n).answer q = .ok t s' ∧ p q s' := by
  induction fuel generalizing α m s with
  | zero => exact absurd rfl h
  | succ fuel ih =>
    obtain ⟨q, hq, hne⟩ : ∃ q, Asks (Analysis.expression (fuel + 1)) m s q
        ∧ (Analysis.refusing p (fuel + 1)).answer q
          ≠ (Analysis.expression (fuel + 1)).answer q := by
      by_contra hnone
      exact h (hm.depends fun q hq ↦ by_contra fun hne ↦ hnone ⟨q, hq, hne⟩)
    by_cases hsame : Analysis.expressionStep (Analysis.refusing p fuel) q.setting q.token q.hint
        q.state = (Analysis.expression (fuel + 1)).answer q
    · -- the expressions inside are not refused, so this one is
      have hrefused : (Analysis.refusing p (fuel + 1)).answer q
          = match (Analysis.expression (fuel + 1)).answer q with
            | .ok t s' => if p q s' then .error .exhausted s' else .ok t s'
            | .error fault s' => .error fault s' := by
        rw [← hsame]
        rfl
      rw [hrefused] at hne
      cases hanswer : (Analysis.expression (fuel + 1)).answer q with
      | error fault s' => exact absurd (by rw [hanswer]) hne
      | ok t s' =>
        rw [hanswer] at hne
        refine ⟨fuel + 1, q, t, s', .asked hq, hanswer, ?_⟩
        by_contra hp
        exact hne (if_neg hp)
    · obtain ⟨n, q', t, s', hreaches, hanswer, hp⟩ := ih (q.traverses fuel) hsame
      exact ⟨n, q', t, s', hreaches.inside hq, hanswer, hp⟩

end Reaches

namespace Analysis

variable {α : Type} {m : Recursion → Analysis α} {p : Query → State → Bool} {fuel n : Nat}
  {s s' : State} {q : Query} {t : Ty} {a : α}

/-- Only expressions without the property are not refused. -/
theorem of_answer_refusing (h : (refusing p (n + 1)).answer q = .ok t s') :
    expressionStep (refusing p n) q.setting q.token q.hint q.state = .ok t s' ∧ p q s' = false := by
  simp only [Recursion.answer, refusing] at h
  split at h
  · next heq =>
    split at h
    · cases h
    · next hp =>
      cases h
      exact ⟨heq, eq_false_of_ne_true hp⟩
  · cases h

/-- What is not refused is answered as if nothing was refused. -/
theorem refusing_within (p : Query → State → Bool) (n : Nat) :
    (refusing p n).Within (expression n) := by
  induction n with
  | zero => exact fun _ _ _ h ↦ nomatch h
  | succ n ih =>
    exact fun q _ _ h ↦ (Traverses.expressionStep ((goesOnward_expression n).of_within ih)
      q.setting q.token q.hint).eq_of_within ih (of_answer_refusing h).1

/-- A query that is asked by a run in which expressions are refused is not refused. -/
theorem answered_refusing (hm : Traverses State.Onward (refusing p n) m)
    (hrun : m (refusing p n) s = .ok a s') (hq : Asks (expression n) m s q) :
    ∃ t s₁, (refusing p n).answer q = .ok t s₁ := by
  cases hanswer : (refusing p n).answer q with
  | ok t s₁ => exact ⟨t, s₁, rfl⟩
  | error fault s₁ =>
    -- a run in which this query alone is refused would fail
    classical
    let rec' : Recursion := fun Γ token hint s ↦
      if (⟨Γ, token, hint, s⟩ : Query) = q then .error fault s₁ else expression n Γ token hint s
    have hself : rec'.answer q = .error fault s₁ := if_pos rfl
    have hother (q' : Query) (hne : q' ≠ q) : rec'.answer q' = (expression n).answer q' :=
      if_neg hne
    have hwithin : (refusing p n).Within rec' := by
      intro q' t s₂ h
      by_cases heq : q' = q
      · exact nomatch (heq ▸ h).symm.trans hanswer
      · exact (hother q' heq).trans (refusing_within p n q' t s₂ h)
    cases (hm.eq_of_within hwithin hrun).symm.trans (hq rec' fault s₁ hother hself)

end Analysis

/-- **A run that succeeds though expressions with some property are refused gets to none of
them.** -/
theorem Reaches.exists_refusing {α : Type} {m : Recursion → Analysis α}
    {p : Query → State → Bool} {fuel n : Nat} {s s' : State} {q : Query} {a : α}
    (hm : Traverses State.Onward (Analysis.refusing p fuel) m)
    (hrun : m (Analysis.refusing p fuel) s = .ok a s') (h : Reaches m fuel s n q) :
    ∃ t s₁, (Analysis.refusing p n).answer q = .ok t s₁ := by
  induction h with
  | asked hq => exact Analysis.answered_refusing hm hrun hq
  | @nested n q q' _ hq ih =>
    obtain ⟨t, s₁, hanswer⟩ := ih
    have hrec := (Analysis.goesOnward_expression n).of_within (Analysis.refusing_within p n)
    exact Analysis.answered_refusing (.expressionStep hrec _ _ _)
      (Analysis.of_answer_refusing hanswer).1 hq

end Pictograph
