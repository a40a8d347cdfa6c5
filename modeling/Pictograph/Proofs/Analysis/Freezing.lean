import Pictograph.Proofs.Analysis.Bodies
import Pictograph.Proofs.Scope.Freezing
import Pictograph.Proofs.Source.Freezing

/-!
# Analyses of two bodies that differ in one declaration

A body introduces a variable by an assignment, and another body, which is the same otherwise,
declares it frozen. If the first one is accepted, the analysis of the second one does the same, step
by step, until the first one writes to the variable again. There the second one stops.

What is read has to be followed with care, because a reader may take a token for a name, whatever
the token asks for. So a run that gets past the token that was replaced has to do so inside an
expression: it asks for the assignment, or for an expression that contains it.

## Main definitions

* `State.Freezes`: two analyses are at one place of the two bodies.
* `Replacement`: what was replaced, and where.
* `Follows`: an analysis of the second body does what one of the first does, or it stops at a
  variable that is frozen there.

## Main results

* `Follows.bind`: what comes behind is followed, too.
* `Analysis.Step.follows`: so are all steps that have to do with no particular variable.
-/

namespace Pictograph

/-! ## States -/

/-- Two analyses are at one place of two bodies, and their variables are the same, but for one that
may be frozen in the second one. -/
structure State.Freezes (o : Origin) (n : Nat) (s s' : State) : Prop where
  cursor : s.cursor.Freezes n s'.cursor
  assembler : s'.assembler = s.assembler
  strings : s'.session.strings = s.session.strings
  environment : s.environment.Freezes o s'.environment
  frame : s'.frame = s.frame

namespace State

variable {o : Origin} {n : Nat} {s s' : State}

theorem exists_freezes (o : Origin) (n : Nat) (s : State) : ∃ s', s.Freezes o n s' :=
  ⟨{ s with cursor := ⟨s.cursor.before, freezeAt n s.cursor.after⟩ },
    ⟨rfl, rfl⟩, rfl, rfl, .refl _, rfl⟩

theorem Onward.remaining_le (h : s.Onward s') : s'.cursor.remaining ≤ s.cursor.remaining := by
  obtain ⟨read, hread⟩ := h.tokens
  rw [hread.remaining_eq]
  exact Nat.le_add_left _ _

end State

/-! ## What is replaced -/

/-- An assignment that was replaced by a declaration, seen from an analysis of expressions. -/
structure Replacement where
  /-- The variable that it introduces. -/
  origin : Origin
  /-- How many tokens are behind the one that asks for it. -/
  behind : Nat
  /-- How expressions are analysed. -/
  expressions : Recursion
  /-- Which expressions it is, or is inside of. -/
  Contains : Query → Prop
  /-- What is known if the variable is written later. -/
  Written : Prop
  onward : expressions.GoesOnward
  /-- An assignment has no value. -/
  nothingness : ∀ {q t s}, q.token.asksFor .assign → expressions.answer q = .ok t s →
    t = .nothingness
  begins : ∀ {q t s}, Contains q → expressions.answer q = .ok t s →
    behind ≤ q.state.cursor.remaining
  ends : ∀ {q t s}, Contains q → expressions.answer q = .ok t s → s.cursor.remaining ≤ behind

namespace Replacement

variable (ρ : Replacement) {α β : Type}

/-- The second analysis ends as the first one does, or it stops at a variable that is frozen. -/
def Ends (V : α → β → Prop) (result : EStateM.Result Fault State β) (a : α) (s : State) : Prop :=
  (∃ b s', result = .ok b s' ∧ V a b ∧ s.Freezes ρ.origin ρ.behind s')
    ∨ ρ.Written ∧ ∃ p s', result = .error ((Cause.frozenMutation ρ.origin.name).at p) s'

/-- An expression is analysed in the second body as it is in the first. -/
def Repeats (q : Query) : Prop :=
  ∀ {s' t s₁}, q.state.Freezes ρ.origin ρ.behind s' → ρ.expressions.answer q = .ok t s₁ →
    (q.state.cursor.remaining < ρ.behind ∨ ρ.behind < s₁.cursor.remaining ∨ ρ.Contains q) →
    ρ.Ends Eq (ρ.expressions q.setting
      (if q.state.cursor.remaining = ρ.behind then q.token.freezing else q.token) q.hint s') t s₁

/-- A run from one state to another is behind the token or in front of it, or it asks for an
expression that contains it, and the expressions that it asks for are repeated. -/
structure Covers (m : Recursion → Analysis α) (s s' : State) : Prop where
  place : s.cursor.remaining ≤ ρ.behind ∨ ρ.behind < s'.cursor.remaining
    ∨ ∃ q, Asks ρ.expressions m s q ∧ ρ.Contains q
  repeats : ∀ q, Asks ρ.expressions m s q → ρ.Repeats q

end Replacement

/-- An analysis of the second body follows one of the first body, if it does so in the expressions
inside it. -/
structure Follows (ρ : Replacement) {α β : Type} (V : α → β → Prop) (m : Recursion → Analysis α)
    (m' : Analysis β) : Prop where
  traverses : Traverses State.Onward ρ.expressions m
  /-- An expression is asked for behind its first token. -/
  fetches : ∀ {s q}, Asks ρ.expressions m s q → q.state.cursor.remaining < s.cursor.remaining
  ends : ∀ {s s' a t}, s.Freezes ρ.origin ρ.behind s' → m ρ.expressions s = .ok a t →
    ρ.Covers m s t → ρ.Ends V (m' s') a t

open Analysis

variable {ρ : Replacement} {α β γ δ : Type}

/-! ## One step behind the other -/

namespace Replacement.Covers

variable {m : Recursion → Analysis α} {f : Recursion → α → Analysis β} {a : α} {b : β}
  {s s₁ s' : State}

/-- The first of two steps. -/
theorem first (h : ρ.Covers (fun r ↦ m r >>= f r) s s')
    (hm : Traverses State.Onward ρ.expressions m)
    (hf : Traverses State.Onward ρ.expressions fun r ↦ f r a)
    (hfetches : ∀ {s q}, Asks ρ.expressions (fun r ↦ f r a) s q →
      q.state.cursor.remaining < s.cursor.remaining)
    (ha : m ρ.expressions s = .ok a s₁) (hb : f ρ.expressions a s₁ = .ok b s') :
    ρ.Covers m s s₁ where
  place := by
    rcases h.place with h | h | ⟨q, hq, hcontains⟩
    · exact .inl h
    · exact .inr (.inl (Nat.lt_of_lt_of_le h (hf.onward _ _ _ hb).remaining_le))
    · rcases hm.asks_bind hq with hq | ⟨a', s₁', ha', hq⟩
      · exact .inr (.inr ⟨q, hq, hcontains⟩)
      · cases ha.symm.trans ha'
        obtain ⟨t, s₂, hanswer⟩ := hq.answered hb
        exact .inr (.inl (Nat.lt_of_le_of_lt (ρ.begins hcontains hanswer) (hfetches hq)))
  repeats q hq := h.repeats q hq.first

/-- The second of two steps. -/
theorem rest (h : ρ.Covers (fun r ↦ m r >>= f r) s s') (hm : Traverses State.Onward ρ.expressions m)
    (ha : m ρ.expressions s = .ok a s₁) : ρ.Covers (fun r ↦ f r a) s₁ s' where
  place := by
    rcases h.place with h | h | ⟨q, hq, hcontains⟩
    · exact .inl (Nat.le_trans (hm.onward _ _ _ ha).remaining_le h)
    · exact .inr (.inl h)
    · rcases hm.asks_bind hq with hq | ⟨a', s₁', ha', hq⟩
      · obtain ⟨t, s₂, hanswer⟩ := hq.answered ha
        have hend := ((hm.through hq).2 t s₂ a s₁ hanswer ha).remaining_le
        exact .inl (Nat.le_trans hend (ρ.ends hcontains hanswer))
      · cases ha.symm.trans ha'
        exact .inr (.inr ⟨q, hq, hcontains⟩)
  repeats q hq := h.repeats q (hm.asks_behind ha hq)

/-- What comes behind a step that asks nothing. -/
theorem behind {x : Analysis α} (h : ρ.Covers (fun r ↦ x >>= f r) s s') (hx : x.GoesOnward)
    (ha : x s = .ok a s₁) : ρ.Covers (fun r ↦ f r a) s₁ s' :=
  h.rest (.const hx) ha

end Replacement.Covers

namespace Follows

variable {V : α → β → Prop} {V' : γ → δ → Prop} {m : Recursion → Analysis α} {m' : Analysis β}
  {f : Recursion → α → Analysis γ} {f' : β → Analysis δ}

/-- **What comes behind is followed, too.** -/
theorem bind (h : Follows ρ V m m') (hV : ∀ a, ∃ b, V a b)
    (h' : ∀ a b, V a b → Follows ρ V' (fun r ↦ f r a) (f' b)) :
    Follows ρ V' (fun r ↦ m r >>= f r) (m' >>= f') where
  traverses := h.traverses.bind fun a ↦ (hV a).elim fun b hab ↦ (h' a b hab).traverses
  fetches {s q} hq := by
    rcases h.traverses.asks_bind hq with hq | ⟨a, s₁, ha, hq⟩
    · exact h.fetches hq
    · obtain ⟨b, hab⟩ := hV a
      exact Nat.lt_of_lt_of_le ((h' a b hab).fetches hq) (h.traverses.onward _ _ _ ha).remaining_le
  ends {s s' c t} hs hrun hcovers := by
    obtain ⟨a, s₁, ha, hc⟩ := bind_ok hrun
    obtain ⟨b₀, hab₀⟩ := hV a
    have hfirst := hcovers.first h.traverses (h' a b₀ hab₀).traverses (h' a b₀ hab₀).fetches ha hc
    rcases h.ends hs ha hfirst with ⟨b, s₁', hb, hab, hs₁⟩ | ⟨hwritten, p, s₁', herror⟩
    · have hrest := (h' a b hab).ends hs₁ hc (hcovers.rest h.traverses ha)
      rwa [← bind_of_ok (f := f') hb] at hrest
    · exact .inr ⟨hwritten, p, s₁', bind_of_error herror⟩

theorem bind_same {m : Recursion → Analysis α} {m' : Analysis α} {f' : α → Analysis δ}
    (h : Follows ρ Eq m m') (h' : ∀ a, Follows ρ V' (fun r ↦ f r a) (f' a)) :
    Follows ρ V' (fun r ↦ m r >>= f r) (m' >>= f') :=
  h.bind (fun a ↦ ⟨a, rfl⟩) fun a _ hab ↦ hab ▸ h' a

/-! ## Steps -/

/-- A step that asks nothing, and does not read the token that was replaced. -/
theorem const {x : Analysis α} {x' : Analysis β} (hx : x.GoesOnward)
    (h : ∀ s s' a t, s.Freezes ρ.origin ρ.behind s' → x s = .ok a t →
      s.cursor.remaining ≤ ρ.behind ∨ ρ.behind < t.cursor.remaining → ρ.Ends V (x' s') a t) :
    Follows ρ V (fun _ ↦ x) x' where
  traverses := .const hx
  fetches hq := absurd hq Asks.not_const
  ends hs hrun hcovers := by
    refine h _ _ _ _ hs hrun (hcovers.place.imp_right fun hplace ↦ hplace.resolve_right ?_)
    rintro ⟨q, hq, -⟩
    exact Asks.not_const hq

/-- A step that asks nothing and is not refused. -/
theorem step {x : Analysis α} {x' : Analysis β} (hx : x.GoesOnward)
    (h : ∀ s s' a t, s.Freezes ρ.origin ρ.behind s' → x s = .ok a t →
      ∃ b t', x' s' = .ok b t' ∧ V a b ∧ t.Freezes ρ.origin ρ.behind t') :
    Follows ρ V (fun _ ↦ x) x' :=
  .const hx fun s s' a t hs hrun _ ↦ .inl (h s s' a t hs hrun)

/-- A step that asks nothing and reads nothing is followed from everywhere. -/
theorem ends_aside {x : Analysis α} {x' : Analysis β} {s s' t : State} {a : α}
    (h : Follows ρ V (fun _ ↦ x) x') (hs : s.Freezes ρ.origin ρ.behind s') (hrun : x s = .ok a t)
    (hcursor : t.cursor = s.cursor) : ρ.Ends V (x' s') a t := by
  refine h.ends hs hrun ⟨?_, fun q hq ↦ absurd hq Asks.not_const⟩
  rcases Nat.lt_or_ge ρ.behind s.cursor.remaining with hlt | hle
  · exact .inr (.inl (hcursor ▸ hlt))
  · exact .inl hle

theorem pure {a : α} {b : β} (h : V a b) : Follows ρ V (fun _ ↦ Pure.pure a) (Pure.pure b) :=
  .step (.pure a) fun _ s' _ _ hs hrun ↦ by
    cases hrun
    exact ⟨b, s', rfl, h, hs⟩

theorem throw (fault : Fault) {x' : Analysis β} :
    Follows ρ V (fun _ ↦ (throw fault : Analysis α)) x' :=
  .step (.throw fault) fun _ _ _ _ _ hrun ↦ nomatch hrun

theorem ite {c : Prop} [Decidable c] {n : Recursion → Analysis α} {n' : Analysis β}
    (h : Follows ρ V m m') (h' : Follows ρ V n n') :
    Follows ρ V (fun r ↦ if c then m r else n r) (if c then m' else n') := by
  by_cases hc : c
  · simpa only [if_pos hc] using h
  · simpa only [if_neg hc] using h'

theorem forM {R : α → β → Prop} {l : List α} {l' : List β} {g : α → Analysis Unit}
    {g' : β → Analysis Unit} (hl : List.Forall₂ R l l')
    (h : ∀ a b, R a b → Follows ρ Eq (fun _ ↦ g a) (g' b)) :
    Follows ρ Eq (fun _ ↦ l.forM g) (l'.forM g') := by
  induction hl with
  | nil => exact .pure rfl
  | cons hab _ ih => exact .bind_same (h _ _ hab) fun _ ↦ ih

theorem get : Follows ρ (State.Freezes ρ.origin ρ.behind) (fun _ ↦ (get : Analysis State)) get :=
  .step .get fun _ s' _ _ hs hrun ↦ by
    cases hrun
    exact ⟨s', s', rfl, hs, hs⟩

/-- A step that depends on the state. -/
theorem look {f : State → Recursion → Analysis γ} {f' : State → Analysis δ}
    (h : ∀ s s', s.Freezes ρ.origin ρ.behind s' → Follows ρ V' (f s) (f' s')) :
    Follows ρ V' (fun r ↦ MonadState.get >>= fun s ↦ f s r) (MonadState.get >>= f') :=
  get.bind (State.exists_freezes _ _) h

/-- Changing what neither is read nor written. -/
theorem modify {g g' : State → State}
    (hg : ∀ s, (g s).cursor = s.cursor ∧ (g s).assembler = s.assembler)
    (h : ∀ s s', s.Freezes ρ.origin ρ.behind s' → (g s).Freezes ρ.origin ρ.behind (g' s')) :
    Follows ρ Eq (fun _ ↦ (modify g : Analysis Unit)) (modify g') :=
  .step (GoesOnward.modify hg) fun _ s' _ _ hs hrun ↦ by
    cases hrun
    exact ⟨(), g' s', rfl, rfl, h _ _ hs⟩

theorem modifyFrame (g : Frame → Frame) :
    Follows ρ Eq (fun _ ↦ modifyFrame g) (modifyFrame g) :=
  modify (fun _ ↦ ⟨rfl, rfl⟩) fun _ _ hs ↦ { hs with frame := congrArg g hs.frame }

theorem modifyEnvironment {g g' : Environment → Environment}
    (h : ∀ e e', e.Freezes ρ.origin e' → (g e).Freezes ρ.origin (g' e')) :
    Follows ρ Eq (fun _ ↦ modifyEnvironment g) (modifyEnvironment g') :=
  modify (fun _ ↦ ⟨rfl, rfl⟩) fun _ _ hs ↦ { hs with environment := h _ _ hs.environment }

theorem assemble {g : Assembler → Assembler} (h : ∀ a : Assembler, a.Preserves (g a)) :
    Follows ρ Eq (fun _ ↦ assemble g) (assemble g) :=
  .step (.assemble h) fun _ s' _ _ hs hrun ↦ by
    cases hrun
    exact ⟨(), _, rfl, rfl, { hs with assembler := congrArg g hs.assembler }⟩

theorem filling {g : Assembler → Option Assembler}
    (h : ∀ {a a' : Assembler}, g a = some a' → a.Preserves a') :
    Follows ρ Eq (fun _ ↦ filling g) (filling g) :=
  .step (.filling h) fun _ s' _ _ hs hrun ↦ by
    obtain ⟨a, ha, rfl⟩ := filling_ok hrun
    rw [← hs.assembler] at ha
    refine ⟨(), { s' with assembler := a }, ?_, rfl, { hs with assembler := rfl }⟩
    rw [Analysis.filling, ha]

/-- **A reader reads the same**, unless it reads the token that was replaced. -/
theorem reading {r : Reading α} (h : r.Composed) :
    Follows ρ Eq (fun _ ↦ reading r) (Analysis.reading r) :=
  .const (.reading h) fun s s' a t hs hrun hplace ↦ by
    obtain ⟨cursor, hr, rfl⟩ := reading_ok hrun
    obtain ⟨cursor', hr', hcursor⟩ := h.freezes hs.cursor hplace hr
    refine .inl ⟨a, { s' with cursor := cursor' }, ?_, rfl, { hs with cursor := hcursor }⟩
    rw [Analysis.reading, hr']

end Follows

namespace Analysis

theorem deadPlace?_eq (s : State) : deadPlace? s = .ok (if s.frame.hasReturned then
    (s.cursor.peek.map fun t ↦ if t.asksFor .blockClose then none else some t.span).join
      else none) s := by
  have hjoin (t? : Option Token) : (t?.map fun t ↦ if t.asksFor .blockClose then none else
      some t.span).join = (t?.filter fun t ↦ !t.asksFor .blockClose).map (·.span) := by
    cases t? with
    | none => rfl
    | some t => cases h : t.asksFor .blockClose <;> simp [h, Option.filter]
  rw [hjoin]
  have hframe : frame s = .ok s.frame s := rfl
  rw [deadPlace?, map_eq_pure_bind, deadStatement?, bind_assoc, bind_of_ok hframe]
  cases s.frame.hasReturned <;> rfl

/-- Leaves the innermost scope, if there is one to leave. -/
theorem leaveScope_eq (Γ : Setting) (s : State) :
    leaveScope Γ s = s.environment.pop?.elim (.ok () s) fun popped ↦
      recommendFrozen Γ popped.1.freezable { s with environment := popped.2 } := by
  have hget : (get : Analysis State) s = .ok s s := rfl
  rw [leaveScope, bind_of_ok hget]
  cases s.environment.pop? with
  | none => rfl
  | some popped => rfl

/-- **A step that has to do with no particular variable** is followed. -/
theorem Step.follows {m : Analysis α} (h : Step m) : Follows ρ Eq (fun _ ↦ m) m := by
  cases h with
  | pure a => exact .pure rfl
  | throw fault => exact .throw fault
  | reading h => exact .reading h
  | here =>
    exact .look fun s s' hs ↦ .pure hs.cursor.here_eq.symm
  | remaining =>
    exact .look fun s s' hs ↦ .pure hs.cursor.remaining_eq.symm
  | deadPlace? =>
    refine .step (.deadPlace?) fun s s' _ _ hs hrun ↦ ?_
    rw [deadPlace?_eq] at hrun
    cases hrun
    refine ⟨_, s', deadPlace?_eq s', ?_, hs⟩
    have hclose (t : Token) : t.freezing.asksFor .blockClose = t.asksFor .blockClose :=
      Token.test_freezing (p := (·.asksFor .blockClose)) fun t ht ↦
        t.asksFor_of_introduces ht nofun nofun
    rw [hs.frame, hs.cursor.map_peek fun t ↦ by rw [hclose, Token.freezing_span]]
  | setLine line => exact .assemble fun a ↦ a.preserves_atLine line
  | @emit op => exact .assemble fun a ↦ a.preserves_opcode op
  | emitWord w => exact .assemble fun a ↦ a.preserves_word w
  | reserve =>
    refine .step .reserve fun s s' _ _ hs hrun ↦ ?_
    cases hrun
    exact ⟨_, _, rfl, congrArg (·.reserve.1) hs.assembler.symm,
      { hs with assembler := congrArg (·.reserve.2) hs.assembler }⟩
  | reserveCount =>
    refine .step .reserveCount fun s s' _ _ hs hrun ↦ ?_
    cases hrun
    exact ⟨_, _, rfl, congrArg (·.reserveCount.1) hs.assembler.symm,
      { hs with assembler := congrArg (·.reserveCount.2) hs.assembler }⟩
  | fill => exact .filling Assembler.preserves_fill?
  | fillOpcode => exact .filling Assembler.preserves_fillOpcode?
  | fillCount => exact .filling Assembler.preserves_fillCount?
  | warn => exact Follows.modify (fun _ ↦ ⟨rfl, rfl⟩) fun _ _ hs ↦ { hs with }
  | intern content =>
    refine .step (.step (.intern content)) fun s s' _ _ hs hrun ↦ ?_
    cases hrun
    exact ⟨_, _, rfl, congrArg (StringTable.intern · content |>.1) hs.strings.symm,
      { hs with strings := congrArg (StringTable.intern · content |>.2) hs.strings }⟩
  | frame => exact .look fun s s' hs ↦ .pure hs.frame.symm
  | modifyFrame => exact .modifyFrame _
  | requireComplete Γ span =>
    refine .ite (.look fun s s' hs ↦ ?_) (.pure rfl)
    rw [hs.environment.requireComplete_eq]
    cases s.environment.requireComplete span with
    | error fault => exact .throw fault
    | ok u => exact .pure rfl
  | enterScope => exact .modifyEnvironment fun _ _ he ↦ he.push _
  | leaveScope Γ =>
    refine .step .leaveScope fun s s' _ _ hs hrun ↦ ?_
    have hpop := hs.environment.pop?
    rw [leaveScope_eq] at hrun ⊢
    generalize s.environment.pop? = popped, s'.environment.pop? = popped' at hpop hrun ⊢
    cases hpop with
    | none =>
      cases hrun
      exact ⟨(), s', rfl, rfl, hs⟩
    | some he =>
      rw [Option.elim_some, recommendFrozen_eq] at hrun
      cases hrun
      exact ⟨(), _, recommendFrozen_eq _ _ _, rfl, { hs with environment := he }⟩
  | settleEach slots => exact .modifyEnvironment fun _ _ he ↦ he.settleEach slots

end Analysis

end Pictograph
