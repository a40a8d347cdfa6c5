import Pictograph.Proofs.Analysis.Passage

/-!
# Bodies in which an assignment declares a frozen variable

An assignment in a body is told from others by the number of tokens behind the one that asks for it.
If that token asks for a declaration of a frozen variable instead, most readers do not tell the
difference: they read tokens in front of it or behind it, and no reader accepts either of the two
tokens.

## Main definitions

* `freezeAt`: a body with an assignment turned into a declaration of a frozen variable.
* `Cursor.Freezes`: two cursors are at one place of the two bodies.

## Main results

* `Reading.Composed.freezes`: a reader that does not read the token reads the same in both bodies.
-/

namespace Pictograph

/-! ## Tokens -/

/-- An assignment turned into a declaration of a frozen variable. Other tokens stay as they are. -/
def Token.freezing (t : Token) : Token :=
  if t.asksFor .assign then { t with lexeme := .identifier Construct.declareFrozen.spelling } else t

/-- The assignment with `n` tokens behind the one that asks for it declares a frozen variable. -/
def freezeAt (n : Nat) : List Token → List Token
  | [] => []
  | t :: rest => (if rest.length = n then t.freezing else t) :: freezeAt n rest

namespace Token

variable {t : Token}

theorem freezing_span : t.freezing.span = t.span := by
  unfold freezing
  split <;> rfl

theorem freezing_of_asksFor (h : t.asksFor .assign) : t.freezing.asksFor .declareFrozen := by
  rw [freezing, if_pos h]
  rfl

theorem freezing_of_reference? {x : String} (h : t.reference? = some x) : t.freezing = t := by
  obtain ⟨lexeme, span⟩ := t
  cases lexeme with
  | reference x' => rfl
  | _ => cases h

/-- Any token but a certain assignment is kept. -/
theorem ite_freezing_eq_self {p : Prop} [Decidable p] (h : ¬ (p ∧ t.asksFor .assign)) :
    (if p then t.freezing else t) = t := by
  split
  · next hp => rw [freezing, if_neg fun hassign ↦ h ⟨hp, hassign⟩]
  · rfl

/-- A token that is changed introduces a variable before and after. -/
theorem freezing_eq_or_introduces :
    t.freezing = t ∨ t.introduces ∧ t.freezing.introduces := by
  cases h : t.asksFor .assign with
  | false => exact .inl (by rw [freezing, h, if_neg Bool.false_ne_true])
  | true =>
    refine .inr ⟨?_, ?_⟩
    · rw [introduces, h, Bool.true_or]
    · rw [introduces, freezing_of_asksFor h, Bool.or_true]

/-- What tokens that introduce a variable fail does not tell the tokens apart. -/
theorem test_freezing {p : Token → Bool} (h : ∀ t : Token, t.introduces → p t = false) :
    p t.freezing = p t := by
  rcases t.freezing_eq_or_introduces with heq | ⟨ht, ht'⟩
  · rw [heq]
  · rw [h _ ht, h _ ht']

end Token

/-! ## Bodies -/

theorem length_freezeAt (n : Nat) (l : List Token) : (freezeAt n l).length = l.length := by
  induction l with
  | nil => rfl
  | cons t rest ih => rw [freezeAt, List.length_cons, List.length_cons, ih]

/-- Two cursors are at one place of two bodies, of which the second declares a frozen variable where
the first one assigns. -/
structure Cursor.Freezes (n : Nat) (c c' : Cursor) : Prop where
  after : c'.after = freezeAt n c.after
  before : c'.before.map (·.span) = c.before.map (·.span)

namespace Cursor.Freezes

variable {n : Nat} {c c' d : Cursor} {t : Token}

theorem start (n : Nat) (tokens : List Token) :
    (Cursor.start tokens).Freezes n (.start (freezeAt n tokens)) :=
  ⟨rfl, rfl⟩

theorem remaining_eq (h : c.Freezes n c') : c'.remaining = c.remaining := by
  rw [remaining, h.after, length_freezeAt, remaining]

/-- Both cursors are behind all tokens, or both have a token next. -/
theorem advance_eq_none (h : c.Freezes n c') (hc : c.advance = none) : c'.advance = none := by
  have hafter : c.after = [] := by
    unfold advance at hc
    split at hc
    · assumption
    · cases hc
  rw [advance, h.after, hafter, freezeAt]

/-- A token that is read is the one that was replaced, or it is read on both sides. -/
theorem advance (h : c.Freezes n c') (hc : c.advance = some (t, d)) :
    ∃ d', c'.advance = some (if d.remaining = n then t.freezing else t, d') ∧ d.Freezes n d' := by
  obtain ⟨hafter, hbefore⟩ := advance_eq_some hc
  refine ⟨⟨(if d.remaining = n then t.freezing else t) :: c'.before, freezeAt n d.after⟩, ?_, rfl,
    ?_⟩
  · rw [Cursor.advance, h.after, hafter]
    rfl
  · rw [hbefore, List.map_cons, List.map_cons, h.before]
    split
    · rw [Token.freezing_span]
    · rfl

/-- The next token is of the same sort on both sides, and at the same place. -/
theorem map_peek {α : Type} (h : c.Freezes n c') {f : Token → α}
    (hf : ∀ t : Token, f t.freezing = f t) : c'.peek.map f = c.peek.map f := by
  rw [peek, peek, h.after]
  cases c.after with
  | nil => rfl
  | cons t rest =>
    rw [freezeAt, List.head?_cons, List.head?_cons, Option.map_some, Option.map_some]
    split
    · rw [hf]
    · rfl

theorem here_eq (h : c.Freezes n c') : c'.here = c.here := by
  obtain ⟨before, after⟩ := c
  obtain ⟨before', after'⟩ := c'
  obtain ⟨rfl, hbefore⟩ := h
  cases after with
  | cons t rest =>
    rw [freezeAt, here, here]
    dsimp only
    split
    · exact Token.freezing_span
    · rfl
  | nil =>
    cases before with
    | nil =>
      obtain rfl : before' = [] := List.map_eq_nil_iff.mp hbefore
      rfl
    | cons t rest =>
      cases before' with
      | nil => cases hbefore
      | cons t' rest' => exact (List.cons.inj hbefore).1

end Cursor.Freezes

/-! ## Readers -/

/-- **A reader that does not read the token reads the same in both bodies.** -/
theorem Reading.Composed.freezes {α : Type} {r : Reading α} (h : r.Composed) {n : Nat}
    {c c' d : Cursor} {a : α} (hc : c.Freezes n c') (hplace : c.remaining ≤ n ∨ n < d.remaining)
    (hr : r c = .ok a d) : ∃ d', r c' = .ok a d' ∧ d.Freezes n d' := by
  -- whatever token is read is not the one that was replaced
  have hread {c d d₁ : Cursor} {t : Token} (hadvance : c.advance = some (t, d₁)) (hd : d₁ = d)
      (hplace : c.remaining ≤ n ∨ n < d.remaining) : ¬ d₁.remaining = n := by
    have hremaining : c.remaining = d₁.remaining + 1 :=
      congrArg List.length (Cursor.advance_eq_some hadvance).1
    subst hd
    omega
  induction h generalizing c c' d with
  | pure b =>
    cases hr
    exact ⟨c', rfl, hc⟩
  | throw => cases hr
  | remaining =>
    cases hr
    exact ⟨c', congrArg (EStateM.Result.ok · c') hc.remaining_eq, hc⟩
  | next =>
    unfold Reading.next at hr
    split at hr
    · next t d₁ hadvance =>
      cases hr
      obtain ⟨d', hadvance', hd⟩ := hc.advance hadvance
      rw [if_neg (hread hadvance rfl hplace)] at hadvance'
      refine ⟨d', ?_, hd⟩
      rw [Reading.next, hadvance']
    · cases hr
  | accept htest =>
    unfold Reading.accept at hr
    split at hr
    · next t d₁ hadvance =>
      obtain ⟨d', hadvance', hd⟩ := hc.advance hadvance
      split at hr
      · next ht =>
        cases hr
        rw [if_neg (hread hadvance rfl hplace)] at hadvance'
        refine ⟨d', ?_, hd⟩
        rw [Reading.accept, hadvance']
        exact if_pos ht
      · next ht =>
        cases hr
        refine ⟨c', ?_, hc⟩
        rw [Reading.accept, hadvance']
        refine if_neg ?_
        split
        · rwa [Token.test_freezing htest]
        · exact ht
    · next hadvance =>
      cases hr
      refine ⟨c', ?_, hc⟩
      rw [Reading.accept, hc.advance_eq_none hadvance]
  | @bind α β r f h h' ih ih' =>
    change EStateM.bind r f c = _ at hr
    unfold EStateM.bind at hr
    split at hr
    · next b e hb =>
      obtain ⟨read, hce⟩ := h.onward hb
      obtain ⟨read', hed⟩ := (h' b).onward hr
      have hle := hce.remaining_eq
      have hle' := hed.remaining_eq
      obtain ⟨e', hb', he⟩ := ih hc (by omega) hb
      obtain ⟨d', hr', hd⟩ := ih' b he (by omega) hr
      refine ⟨d', ?_, hd⟩
      change EStateM.bind r f c' = _
      rw [EStateM.bind, hb']
      exact hr'
    · cases hr

end Pictograph
