import Pictograph.Proofs.Analysis.Makeup
import Pictograph.Proofs.Compilation.Emitted

/-!
# No body goes on behind its end

A body ends with the mark that closes its block, and the analysis notices the end by itself: it does
not ask whether there are more tokens. So a list of tokens that is accepted is not accepted any more
once something follows it, and none of its beginnings was accepted.

Many constructs look at the next token, though, and what they find at the end of the tokens is not
what they find there once more tokens follow. A list of branches ends there that would go on, a
generic argument is left out that would be read. Such a construct cannot be the last one of a body
that is accepted: the mark that closes the block is still to come. So whatever an analysis does
before the last token it does in front of further tokens, too, and reading the last token does not
depend on any other.

The strings that were met before may be others. They are nothing but words of the code.

## Main definitions

* `State.Followed`: a state with further tokens behind those to come.
* `Lasts`: an analysis does the same in front of further tokens, unless it gets to the end.
* `Settles`: it does so at the end, too, if it comes to certain results.

## Main results

* `Made.lasts`: all analyses last.
* `settles_body`: a body is analysed in the same way whatever follows it.
* `compile_followed`: what is said about the first token behind a body.
* `compile_prefix_free`: of two bodies that are accepted none is a beginning of the other.
-/

namespace Pictograph

open Analysis

variable {α β σ : Type} {later : List Token}

/-! ## Further tokens -/

/-- A state with further tokens behind those to come. Words, strings and warnings may differ. -/
structure State.Followed (later : List Token) (s s' : State) : Prop extends s.Parallel s' where
  cursor : s'.cursor = s.cursor.followed later

/-- What an analysis does, it does in front of further tokens, too, unless it gets to the end of the
tokens. -/
structure Lasts (m : Analysis α) : Prop where
  suffix : ∀ {s t a}, m s = .ok a t → t.cursor.after <:+ s.cursor.after
  followed : ∀ {s t a}, m s = .ok a t → t.cursor.after ≠ [] → ∀ {later s'}, s.Followed later s' →
    ∃ t', m s' = .ok a t' ∧ t.Followed later t'

/-- How an analysis comes to the results `P`, so it does in front of further tokens. -/
def Endures (P : α → Prop) (m : Analysis α) : Prop :=
  ∀ ⦃s t a⦄, m s = .ok a t → P a → ∀ ⦃later s'⦄, s.Followed later s' →
    ∃ t', m s' = .ok a t' ∧ t.Followed later t'

/-- An analysis reads a token before it comes to the results `P`, and does so in front of further
tokens, too. -/
structure Settles (P : α → Prop) (m : Analysis α) : Prop where
  reads : ∀ {s t a}, m s = .ok a t → P a → s.cursor.after ≠ []
  endures : Endures P m

/-- Whoever leaves a token has found one. -/
theorem Lasts.after_ne_nil {m : Analysis α} (h : Lasts m) {s t : State} {a : α}
    (hm : m s = .ok a t) (hafter : t.cursor.after ≠ []) : s.cursor.after ≠ [] :=
  fun hnil ↦ hafter (List.suffix_nil.mp (hnil ▸ h.suffix hm))

theorem Blind.endures {m : Analysis α} (h : Blind m) (P : α → Prop) : Endures P m := by
  intro s t a hm _ later s' hs
  obtain ⟨t', hm', ht, hcursor⟩ := h.parallel hs.toParallel hm
  refine ⟨t', hm', ht, ?_⟩
  rw [hcursor, hs.cursor, h.cursor_eq hm]

theorem Blind.lasts {m : Analysis α} (h : Blind m) : Lasts m where
  suffix hm := h.cursor_eq hm ▸ List.suffix_rfl
  followed hm _ _ _ hs := h.endures (fun _ ↦ True) hm trivial hs

/-! ## One step after another -/

theorem Lasts.bind {m : Analysis α} {f : α → Analysis β} (h : Lasts m) (h' : ∀ a, Lasts (f a)) :
    Lasts (m >>= f) where
  suffix hb := by
    obtain ⟨a, s₁, ha, hb⟩ := bind_ok hb
    exact ((h' a).suffix hb).trans (h.suffix ha)
  followed hb hafter _ _ hs := by
    obtain ⟨a, s₁, ha, hb⟩ := bind_ok hb
    obtain ⟨s₁', ha', hs₁⟩ := h.followed ha ((h' a).after_ne_nil hb hafter) hs
    obtain ⟨t', hb', ht⟩ := (h' a).followed hb hafter hs₁
    exact ⟨t', (bind_of_ok ha').trans hb', ht⟩

theorem lasts_reading {r : Reading α} (h : r.Lasts r) : Lasts (reading r) where
  suffix hr := by
    obtain ⟨c, hc, rfl⟩ := reading_ok hr
    exact h.suffix hc
  followed hr hafter later s' hs := by
    obtain ⟨c, hc, rfl⟩ := reading_ok hr
    refine ⟨{ s' with cursor := c.followed later }, ?_, ⟨hs.assembler, hs.environment, hs.frame⟩,
      rfl⟩
    rw [reading, hs.cursor, h.followed hc hafter later]

theorem lasts_look {g : State → Analysis α} (hg : ∀ s s', s.Parallel s' → g s' = g s)
    (h : ∀ s, Lasts (g s)) : Lasts (get >>= g) where
  suffix {s t a} hm := (h s).suffix hm
  followed {s t a} hm hafter later s' hs := by
    obtain ⟨t', hm', ht⟩ := (h s).followed hm hafter hs
    rw [← hg s s' hs.toParallel] at hm'
    exact ⟨t', hm', ht⟩

/-- Where a token is left, it is the same one in front of further tokens. -/
theorem Cursor.peek_followed {c : Cursor} (h : c.after ≠ []) (later : List Token) :
    (c.followed later).peek = c.peek := by
  obtain ⟨t, rest, hafter⟩ := List.exists_cons_of_ne_nil h
  rw [peek, peek, followed, hafter, List.cons_append, List.head?_cons, List.head?_cons]

theorem Cursor.here_followed {c : Cursor} (h : c.after ≠ []) (later : List Token) :
    (c.followed later).here = c.here := by
  obtain ⟨t, rest, hafter⟩ := List.exists_cons_of_ne_nil h
  rw [here, here, followed, hafter, List.cons_append]

theorem lasts_here : Lasts here where
  suffix h := by
    cases h
    exact List.suffix_rfl
  followed {s t span} h hafter later s' hs := by
    cases h
    refine ⟨s', ?_, hs⟩
    change EStateM.Result.ok s'.cursor.here s' = _
    rw [hs.cursor, Cursor.here_followed hafter]

theorem deadStatement?_eq (s : State) :
    deadStatement? s = .ok (if s.frame.hasReturned then
      s.cursor.peek.filter fun token ↦ !token.asksFor .blockClose else none) s := by
  change (if s.frame.hasReturned = true then _ else _ : Analysis (Option Token)) s = _
  split <;> rfl

theorem lasts_deadStatement? : Lasts deadStatement? where
  suffix {s t dead?} h := by
    cases (deadStatement?_eq s).symm.trans h
    exact List.suffix_rfl
  followed {s t dead?} h hafter later s' hs := by
    cases (deadStatement?_eq s).symm.trans h
    refine ⟨s', ?_, hs⟩
    rw [deadStatement?_eq, hs.frame, hs.cursor, Cursor.peek_followed hafter]

/-! ## Repetitions -/

section

variable {step : σ → Analysis (σ ⊕ β)}

/-- With more tokens to come a repetition may take more steps. All steps but the last one are in
front of a token that is still to be read, so that what they do they do in front of further tokens,
too, if the last one does. -/
theorem followed_repeating (h : ∀ v, Lasts (step v)) (ends : State → Prop)
    (hlast : ∀ {v s b t}, step v s = .ok (.inr b) t → ends t → s.cursor.after ≠ []
      ∧ ∀ {later s'}, s.Followed later s' →
        ∃ t', step v s' = .ok (.inr b) t' ∧ t.Followed later t')
    {n n' : Nat} (hn : n ≤ n') {v : σ} {s t : State} {b : β}
    (hm : repeating step n v s = .ok b t) (ht : ends t) : s.cursor.after ≠ []
      ∧ ∀ {later s'}, s.Followed later s' →
        ∃ t', repeating step n' v s' = .ok b t' ∧ t.Followed later t' := by
  induction n generalizing n' v s with
  | zero => cases hm
  | succ n ih =>
    obtain ⟨n', rfl⟩ := Nat.exists_eq_succ_of_ne_zero (Nat.ne_zero_of_lt hn)
    obtain ⟨answer, s₁, hstep, hm⟩ := bind_ok hm
    cases answer with
    | inl v' =>
      obtain ⟨hbetween, hrest⟩ := ih (Nat.le_of_succ_le_succ hn) hm
      refine ⟨(h v).after_ne_nil hstep hbetween, fun hs ↦ ?_⟩
      obtain ⟨s₁', hstep', hs₁⟩ := (h v).followed hstep hbetween hs
      obtain ⟨t', hm', ht'⟩ := hrest hs₁
      exact ⟨t', (bind_of_ok hstep').trans hm', ht'⟩
    | inr b' =>
      obtain ⟨rfl, rfl⟩ := pure_ok hm
      obtain ⟨hafter, hfollowed⟩ := hlast hstep ht
      refine ⟨hafter, fun hs ↦ ?_⟩
      obtain ⟨t', hstep', ht'⟩ := hfollowed hs
      exact ⟨t', bind_of_ok hstep', ht'⟩

theorem State.Followed.remaining_le {s s' : State} (hs : s.Followed later s') :
    s.cursor.remaining + 1 ≤ s'.cursor.remaining + 1 := by
  rw [hs.cursor, Cursor.remaining, Cursor.remaining, Cursor.followed, List.length_append]
  exact Nat.succ_le_succ (Nat.le_add_right _ _)

theorem Lasts.repeatUntil (h : ∀ v, Lasts (step v)) (v : σ) : Lasts (repeatUntil step v) where
  suffix {s _ _} hm := keeps_of_repeating (fun hstep hs ↦ ((h _).suffix hstep).trans hs) hm
    (List.suffix_refl s.cursor.after)
  followed hm hafter _ _ hs := (followed_repeating h (·.cursor.after ≠ [])
    (fun hstep hafter ↦ ⟨(h _).after_ne_nil hstep hafter, (h _).followed hstep hafter⟩)
    hs.remaining_le hm hafter).2 hs

end

/-! ## All analyses -/

/-- What is made of expressions that last does so, too. -/
theorem Made.lasts {rec : Recursion} (hrec : ∀ Γ token hint, Lasts (rec Γ token hint))
    {token? : Option Token} {m : Analysis α} (h : Made rec token? m) : Lasts m := by
  induction h with
  | blind h => exact h.lasts
  | reading h => exact lasts_reading h
  | look hg _ ih => exact lasts_look hg ih
  | here => exact lasts_here
  | deadStatement? => exact lasts_deadStatement?
  | bind _ _ ih ih' => exact ih.bind ih'
  | repeatUntil _ v ih => exact .repeatUntil ih v
  | next _ ih => exact (lasts_reading .next).bind ih
  | call => exact hrec _ _ _
  | drop _ ih => exact ih
  | before h _ ih => exact h.lasts.bind ih

/-- Which line is the current one does not depend on tokens that follow. -/
theorem lasts_setLine (line : Nat) : Lasts (setLine line) where
  suffix h := by
    cases h
    exact List.suffix_rfl
  followed h _ later s' hs := by
    cases h
    exact ⟨_, rfl, ⟨⟨hs.assembler.size, hs.assembler.holes⟩, hs.environment, hs.frame⟩, hs.cursor⟩

theorem lasts_expression (n : Nat) (Γ : Setting) (token : Token) (hint : Option Ty) :
    Lasts (expression n Γ token hint) := by
  induction n generalizing Γ token hint with
  | zero => exact (Blind.throw _).lasts
  | succ n ih =>
    obtain ⟨m, hm, heq⟩ := @exists_made (expression n) Γ token hint
    rw [expression, heq]
    exact (lasts_setLine _).bind fun _ ↦ hm.lasts ih

/-! ## Coming to an end -/

section

variable {P : α → Prop} {P' : β → Prop} {m m' : Analysis α} {f : α → Analysis β}

/-- Results that do not matter. -/
theorem settles_pure_of_not {a : α} (h : ¬ P a) : Settles P (pure a : Analysis α) where
  reads hm ha := by
    obtain ⟨rfl, -⟩ := pure_ok hm
    exact absurd ha h
  endures _ _ _ hm ha := by
    obtain ⟨rfl, -⟩ := pure_ok hm
    exact absurd ha h

theorem Settles.ite {p : Prop} [Decidable p] (h : Settles P m) (h' : Settles P m') :
    Settles P (if p then m else m') := by
  split
  · exact h
  · exact h'

/-- Reading a token does not depend on what follows it. -/
theorem settles_next : Settles (fun _ ↦ True) next where
  reads {s t token} h _ hnil := by
    obtain ⟨c, hc, rfl⟩ := reading_ok h
    rw [Reading.next, Cursor.advance, hnil] at hc
    cases hc
  endures {s t token} h _ later s' hs := by
    obtain ⟨c, hc, rfl⟩ := reading_ok h
    refine ⟨{ s' with cursor := c.followed later }, ?_, ⟨hs.assembler, hs.environment, hs.frame⟩,
      rfl⟩
    rw [next, reading, hs.cursor, Reading.next_followed hc later]

/-- Once a token was read, nothing more has to be. -/
theorem Settles.bind (h : Settles (fun _ ↦ True) m) (h' : ∀ a, Endures P' (f a)) :
    Settles P' (m >>= f) where
  reads hb _ := by
    obtain ⟨a, s₁, ha, -⟩ := bind_ok hb
    exact h.reads ha trivial
  endures _ _ _ hb hP _ _ hs := by
    obtain ⟨a, s₁, ha, hb⟩ := bind_ok hb
    obtain ⟨s₁', ha', hs₁⟩ := h.endures ha trivial hs
    obtain ⟨t', hb', ht⟩ := h' a hb hP hs₁
    exact ⟨t', (bind_of_ok ha').trans hb', ht⟩

/-- As long as a token is still to be read, it is enough that an analysis lasts. -/
theorem Lasts.bind_settles (h : Lasts m) (h' : ∀ a, Settles P' (f a)) : Settles P' (m >>= f) where
  reads hb hP := by
    obtain ⟨a, s₁, ha, hb⟩ := bind_ok hb
    exact h.after_ne_nil ha ((h' a).reads hb hP)
  endures _ _ _ hb hP _ _ hs := by
    obtain ⟨a, s₁, ha, hb⟩ := bind_ok hb
    obtain ⟨s₁', ha', hs₁⟩ := h.followed ha ((h' a).reads hb hP) hs
    obtain ⟨t', hb', ht⟩ := (h' a).endures hb hP hs₁
    exact ⟨t', (bind_of_ok ha').trans hb', ht⟩

variable {step : σ → Analysis (σ ⊕ β)}

/-- A repetition comes to its end with the last step, and reads a token there. -/
theorem settles_repeatUntil (h : ∀ v, Lasts (step v)) (h' : ∀ v, Settles (·.isRight) (step v))
    (v : σ) : Settles (fun _ ↦ True) (repeatUntil step v) := by
  have hrepeating {n n' : Nat} (hn : n ≤ n') {s t : State} {b : β}
      (hm : repeating step n v s = .ok b t) := followed_repeating h (fun _ ↦ True)
    (fun hstep _ ↦ ⟨(h' _).reads hstep rfl, fun hs ↦ (h' _).endures hstep rfl hs⟩) hn hm trivial
  exact ⟨fun hm _ ↦ (hrepeating (Nat.le_refl _) hm).1,
    fun _ _ _ hm _ _ _ hs ↦ (hrepeating hs.remaining_le hm).2 hs⟩

end

/-! ## Bodies -/

theorem lasts_skipStep (depth : Nat) : Lasts (skipStep depth) :=
  (@made_skipStep (expression 0) depth).lasts (lasts_expression 0)

theorem settles_skipBody : Settles (fun _ ↦ True) skipBody :=
  settles_repeatUntil lasts_skipStep (fun _ ↦ settles_next.bind fun _ ↦
    ((Blind.pure _).ite ((Blind.pure _).ite (.pure _))).endures _) 0

section

variable {Γ : Setting} {n : Nat}

/-- What is left out behind a statement has an end of its own. -/
theorem settles_behindStatement (reported : Bool) :
    Settles (·.isRight) (behindStatement Γ reported) := by
  refine .ite (settles_pure_of_not Bool.false_ne_true) (lasts_deadStatement?.bind_settles ?_)
  intro dead?
  cases dead? with
  | none => exact settles_pure_of_not Bool.false_ne_true
  | some dead =>
    exact (Blind.warn _ _).lasts.bind_settles fun _ ↦
      .ite (settles_pure_of_not Bool.false_ne_true)
        (settles_skipBody.bind fun _ ↦ (Blind.pure _).endures _)

/-- A body comes to its end with a mark that is read: the one behind the statements, or the one
behind those that are left out. -/
theorem settles_bodyStep (reported : Bool) :
    Settles (·.isRight) (bodyStep Γ (expression n) reported) := by
  rw [bodyStep_eq]
  refine settles_next.bind fun token ↦ ?_
  split
  · exact (Blind.pure _).endures _
  · exact ((made_statement.lasts (lasts_expression n)).bind_settles fun _ ↦
      settles_behindStatement reported).endures

/-- **A body is analysed in the same way whatever follows it.** -/
theorem settles_body (arguments : List Argument) (captured : List Variable) (outerSlots : Nat) :
    Settles (fun _ ↦ True) (body Γ (expression n) arguments captured outerSlots) := by
  refine lasts_here.bind_settles fun _ ↦
    (Blind.forM fun _ ↦ .declareArgument _).lasts.bind_settles fun _ ↦
    (Blind.takeOver _ _).lasts.bind_settles fun _ ↦
    .bind ?_ fun _ ↦ (Blind.leaveBody _ _).endures _
  exact settles_repeatUntil (fun reported ↦ (made_bodyStep reported).lasts (lasts_expression n))
    settles_bodyStep false

end

/-! ## Procedures -/

variable {cat : Catalogue} {options : Options} {session session₁ : Session} {c : Class} {m : Member}
  {tokens : List Token} {record : Record}

/-- **Behind a body that is accepted there must be nothing.** If there is, its first token is what
is reported, whatever it is and whatever comes behind it. -/
theorem compile_followed (hm : m.isNative = false)
    (h : compile cat options session c m tokens = (.ok record, session₁)) (token : Token)
    (later : List Token) (session' : Session) :
    (compile cat options session' c m (tokens ++ token :: later)).1
      = .error ((Cause.unexpectedToken "end of body" token.lexeme.describe).at token.span) := by
  obtain ⟨fields, summary, s, hfields, hbody, hfinish, -⟩ := (compile_ok_iff hm).mp h
  obtain ⟨hafter, -, -⟩ := finishRecord_ok_iff.mp hfinish
  have hstart : (State.start fields session tokens).Followed (token :: later)
      (.start fields session' (tokens ++ token :: later)) := ⟨⟨.refl _, rfl, rfl⟩, rfl⟩
  obtain ⟨s', hbody', hs⟩ := (settles_body _ _ _).endures hbody trivial hstart
  have hlength : tokens.length ≤ (tokens ++ token :: later).length := by
    rw [List.length_append]
    exact Nat.le_add_right _ _
  have hanalyse : analyse (.ofMember cat options c m) m.arguments fields session'
      (tokens ++ token :: later) = .ok summary s' :=
    (Traverses.body (goesOnward_expression _) _ _ _).eq_of_within (expression_within hlength) hbody'
  have hpeek : s'.cursor.peek = some token := by
    rw [hs.cursor, Cursor.peek, Cursor.followed, hafter]
    rfl
  rw [compile, hm, if_neg Bool.false_ne_true, hfields]
  dsimp only
  rw [hanalyse]
  dsimp only
  rw [finishRecord, hpeek]

/-- **Bodies that are accepted are prefix-free.** Of a body that is accepted no proper beginning is
accepted, and no continuation, whatever strings and warnings there were before. -/
theorem compile_prefix_free (hm : m.isNative = false)
    (h : compile cat options session c m tokens = (.ok record, session₁)) :
    (∀ tokens' session', tokens' <+: tokens → tokens' ≠ tokens →
      ∃ fault, (compile cat options session' c m tokens').1 = .error fault)
    ∧ ∀ tokens' session', tokens <+: tokens' → tokens' ≠ tokens →
      ∃ fault, (compile cat options session' c m tokens').1 = .error fault := by
  have hcons {tokens rest : List Token} (hne : tokens ++ rest ≠ tokens) :
      ∃ token later, rest = token :: later :=
    List.exists_cons_of_ne_nil fun hnil ↦ hne (by rw [hnil, List.append_nil])
  constructor
  · rintro tokens' session' ⟨rest, rfl⟩ hne
    obtain ⟨token, later, rfl⟩ := hcons hne.symm
    cases hc : compile cat options session' c m tokens' with
    | mk result session₂ =>
      cases result with
      | error fault => exact ⟨fault, rfl⟩
      | ok record' =>
        -- then the whole body would be rejected
        have hrejected := compile_followed hm hc token later session
        rw [h] at hrejected
        cases hrejected
  · rintro tokens' session' ⟨rest, rfl⟩ hne
    obtain ⟨token, later, rfl⟩ := hcons hne
    exact ⟨_, compile_followed hm h token later session'⟩

/-- A body with two branches that do nothing, `🍊 👍 🍇 🍉 🍓 🍇 🍉 🍉`. -/
def Sample.eitherBranch : List Token :=
  [ask .ifBranch, word (.boolean true), ask .blockOpen, ask .blockClose, ask .elseBranch,
    ask .blockOpen, ask .blockClose, ask .blockClose]

/-- A body with two branches is accepted. It is not without its last mark, and not with another
one. -/
theorem compile_prefix_free_sample :
    ∃ record session', compile Sample.catalogue {} .start Sample.parentClass Sample.method
        Sample.eitherBranch = (.ok record, session')
      ∧ (∃ fault, (compile Sample.catalogue {} .start Sample.parentClass Sample.method
        Sample.eitherBranch.dropLast).1 = .error fault)
      ∧ ∃ fault, (compile Sample.catalogue {} .start Sample.parentClass Sample.method
        (Sample.eitherBranch ++ [Sample.ask .blockClose])).1 = .error fault := by
  have hm : Sample.method.isNative = false := by decide +kernel
  have hwords : (compile Sample.catalogue {} .start Sample.parentClass Sample.method
      Sample.eitherBranch).1.toOption.bind (fun record ↦ some record.code.words)
        = some [98, 4, 17, 0, 105, 0] := by
    decide +kernel
  obtain ⟨record, session', h, -⟩ := exists_record_of_bind hwords
  obtain ⟨hshorter, hlonger⟩ := compile_prefix_free hm h
  refine ⟨record, session', h, hshorter _ _ (List.dropLast_prefix _) ?_,
    hlonger _ _ (List.prefix_append _ _) ?_⟩
  · exact fun heq ↦ absurd (congrArg List.length heq) (by decide)
  · exact fun heq ↦ absurd (congrArg List.length heq) (by decide)

end Pictograph
