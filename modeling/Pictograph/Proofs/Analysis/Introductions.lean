import Pictograph.Proofs.Analysis.FreezingConstructs
import Pictograph.Proofs.Compilation.ReachedStates

/-!
# Declaring a variable frozen where it was introduced

An assignment introduces a variable if its name refers to nothing in front of it. If the body
declares the variable frozen there instead, the analysis goes the same way, because whatever else is
analysed is asked for by expressions that are followed. It ends in the same way, or some expression
that the first analysis gets to writes to the variable again.

## Main definitions

* `Query.Introduces`: an assignment introduces a variable.
* `Query.Overwrites`: an expression writes to a variable that is there already.

## Main results

* `Reaches.repeats`: every expression that a run gets to is repeated in the second body.
-/

namespace Pictograph

open Analysis

/-! ## Writing to a variable -/

/-- A token that writes to a variable asks for one of three constructs. -/
theorem Token.asksFor_of_writes {t : Token} (h : t.construct?.any (·.writes)) :
    t.asksFor .assign ∨ t.asksFor .increment ∨ t.asksFor .decrement := by
  unfold asksFor
  cases hc : t.construct? with
  | none =>
    rw [hc] at h
    cases h
  | some c =>
    rw [hc] at h
    cases c with
    | assign => exact .inl rfl
    | increment => exact .inr (.inl rfl)
    | decrement => exact .inr (.inr rfl)
    | _ => cases h

/-- An assignment introduces a variable: its name stands behind it, and refers to nothing there. -/
structure Query.Introduces (q : Query) (o : Origin) : Prop where
  asksFor : q.token.asksFor .assign
  named : ∃ t, q.state.cursor.peek = some t ∧ o.isNamedBy t
  unresolved : q.state.environment.resolve? o.name = none

/-- An expression writes to a local variable that is there already. -/
structure Query.Overwrites (q : Query) (o : Origin) : Prop where
  writes : q.token.construct?.any (·.writes)
  named : ∃ t, q.state.cursor.peek = some t ∧ t.reference? = some o.name
  resolved : ∃ v, q.state.environment.resolve? o.name = some (.frame, v) ∧ v.span = o.place

/-- What refers to nothing is not declared in the innermost block. -/
theorem Environment.contains_current_of_resolve? {e : Environment} {x : String}
    (h : e.resolve? x = none) : e.current.contains x = false := by
  unfold resolve? at h
  split at h
  · cases h
  · next hnone =>
    have hcurrent := List.findSome?_eq_none_iff.mp hnone e.current List.mem_cons_self
    exact List.any_eq_false.mpr (List.find?_eq_none.mp hcurrent)

namespace Replacement

variable {ρ : Replacement} {Γ : Setting} {s s' t : State} {ty : Ty}

/-- What is known if a name refers to the variable that is frozen on the second side. -/
def Tells (ρ : Replacement) (s : State) : Prop :=
  ∀ u v, s.cursor.peek = some u → u.reference? = some ρ.origin.name →
    s.environment.resolve? ρ.origin.name = some (.frame, v) → v.span = ρ.origin.place → ρ.Written

theorem peek_of_advance {c d : Cursor} {u : Token} (h : c.advance = some (u, d)) :
    c.peek = some u := by
  rw [Cursor.peek, (Cursor.advance_eq_some h).1, List.head?_cons]

/-- The name of a variable is read on both sides, because it is no assignment. -/
theorem exists_variableName {x : String} {p : Span} {s₁ : State}
    (hs : s.Freezes ρ.origin ρ.behind s') (h : variableName s = .ok (x, p) s₁) :
    ∃ s₁', variableName s' = .ok (x, p) s₁' ∧ s₁.Freezes ρ.origin ρ.behind s₁' := by
  obtain ⟨u, d, hadvance, hu, rfl, rfl⟩ := exists_advance_of_variableName h
  obtain ⟨d', hadvance', hd⟩ := hs.cursor.advance hadvance
  have hsame : (if d.remaining = ρ.behind then u.freezing else u) = u := by
    rw [Token.freezing_of_reference? hu, ite_self]
  rw [hsame] at hadvance'
  exact ⟨_, variableName_of_advance hadvance' hu, { hs with cursor := hd }⟩

/-- A counter is stepped on both sides, or refused on the second one. -/
theorem ends_stepVariable {construct : Construct} {action : Access}
    (hs : s.Freezes ρ.origin ρ.behind s') (hrun : stepVariable Γ construct action s = .ok ty t)
    (htells : ρ.Tells s) : ρ.Ends Eq (stepVariable Γ construct action s') ty t := by
  obtain ⟨⟨x, p⟩, s₁, hname, hrun⟩ := bind_ok hrun
  obtain ⟨s₁', hname', hs₁⟩ := exists_variableName hs hname
  obtain ⟨u, d, hadvance, hu, -, rfl⟩ := exists_advance_of_variableName hname
  obtain ⟨found?, s₂, hfound, hrun⟩ := bind_ok hrun
  obtain ⟨rfl, rfl⟩ := resolve?_ok hfound
  obtain ⟨⟨st, v⟩, s₃, hdemand, hrun⟩ := bind_ok hrun
  obtain ⟨hx, rfl⟩ := demand_ok hdemand
  obtain ⟨_, s₄, hlifted, hrun⟩ := bind_ok hrun
  obtain ⟨hready, rfl⟩ := lift_ok hlifted
  obtain ⟨_, s₅, hrequired, hrun⟩ := bind_ok hrun
  obtain ⟨hfits, rfl⟩ := require_ok hrequired
  obtain ⟨w, s₆, hmutate, hrun⟩ := bind_ok hrun
  obtain ⟨hw, rfl⟩ := lift_ok hmutate
  obtain ⟨_, s₇, hmodify, hrun⟩ := bind_ok hrun
  cases hmodify
  obtain ⟨v', hx', hv, hwrite⟩ := hs₁.environment.write hx hw
  -- up to the write the second side does the same
  have hsame : stepVariable Γ construct action s' = (do
      let mutated ← lift (v'.mutate p)
      modifyEnvironment (·.update x fun _ ↦ mutated)
      emitAccess st action v.slot
      return Ty.nothingness) s₁' := by
    have hresolve : resolve? x s₁' = .ok (some (st, v')) s₁' :=
      congrArg (EStateM.Result.ok · s₁') hx'
    have hdemand : demand (some (st, v')) (.unresolvedVariable x) p s₁' = .ok (st, v') s₁' := rfl
    have hlift : lift (v'.requireReady p) s₁' = .ok () s₁' := by
      rw [hv.requireReady_eq, hready]
      rfl
    have hrequire (cause : Cause) :
        require (Γ.catalogue.fits v'.type .integer) cause p s₁' = .ok () s₁' := by
      rw [hv.type_eq, hfits]
      rfl
    refine (bind_of_ok hname').trans ((bind_of_ok hresolve).trans ((bind_of_ok hdemand).trans
      ((bind_of_ok hlift).trans ((bind_of_ok (hrequire _)).trans ?_))))
    rw [hv.slot_eq]
  rw [hsame]
  rcases hwrite with ⟨w', hw', henvironment⟩ | ⟨rfl, rfl, hspan, hrefused⟩
  · rw [hw']
    have hstates : { s with cursor := d, environment := s.environment.update x fun _ ↦ w }.Freezes
        ρ.origin ρ.behind { s₁' with environment := s₁'.environment.update x fun _ ↦ w' } :=
      { hs₁ with environment := henvironment }
    have hrest : Follows ρ Eq (fun _ ↦ emitAccess st action v.slot >>= fun _ ↦
        (Pure.pure .nothingness : Analysis Ty)) _ :=
      .bind_same (.emitAccess _ _ _) fun _ ↦ .pure rfl
    refine hrest.ends_aside hstates hrun ?_
    cases st <;> cases hrun <;> rfl
  · refine .inr ⟨htells u v (peek_of_advance hadvance) hu hx hspan, p, s₁', ?_⟩
    rw [hrefused]
    rfl

theorem ends_of_eq (ρ : Replacement) {α β : Type} {V : α → β → Prop}
    {result result' : EStateM.Result Fault State β} {a : α} (h : result = result')
    (h' : ρ.Ends V result' a t) : ρ.Ends V result a t := h ▸ h'

/-- An assignment does the same on both sides, or is refused on the second one. -/
theorem ends_assign (hs : s.Freezes ρ.origin ρ.behind s')
    (hrun : assign Γ ρ.expressions s = .ok ty t) (hcovers : ρ.Covers (fun r ↦ assign Γ r) s t)
    (htells : ρ.Tells s) : ρ.Ends Eq (assign Γ ρ.expressions s') ty t := by
  obtain ⟨⟨x, p⟩, s₁, hname, hrun⟩ := bind_ok hrun
  obtain ⟨s₁', hname', hs₁⟩ := exists_variableName hs hname
  replace hcovers := hcovers.behind (.reading .variableName) hname
  obtain ⟨u, d, hadvance, hu, -, rfl⟩ := exists_advance_of_variableName hname
  obtain ⟨found?, s₂, hfound, hrun⟩ := bind_ok hrun
  replace hcovers := hcovers.behind (.resolve? _) hfound
  obtain ⟨rfl, rfl⟩ := resolve?_ok hfound
  have hresolve : resolve? x s₁' = .ok (s₁'.environment.resolve? x) s₁' := rfl
  rw [assign]
  refine ρ.ends_of_eq ((bind_of_ok hname').trans (bind_of_ok hresolve)) ?_
  cases hx : s.environment.resolve? x with
  | none =>
    have hx' : s₁'.environment.resolve? x = none := by
      have hresolved := hs₁.environment.resolve? x
      rw [hx] at hresolved
      exact eq_none_of_rel hresolved
    rw [hx] at hrun hcovers
    rw [hx']
    exact (Follows.introduce fun _ _ ↦ .refl _).ends hs₁ hrun hcovers
  | some found =>
    obtain ⟨st, v⟩ := found
    rw [hx] at hrun hcovers
    obtain ⟨w, s₂, hmutate, hrun⟩ := bind_ok hrun
    replace hcovers := hcovers.behind (.lift _) hmutate
    obtain ⟨hw, rfl⟩ := lift_ok hmutate
    obtain ⟨_, s₃, hmodify, hrun⟩ := bind_ok hrun
    replace hcovers := hcovers.behind (.modifyEnvironment _) hmodify
    cases hmodify
    obtain ⟨v', hx', hv, ⟨w', hw', henvironment⟩ | ⟨rfl, rfl, hspan, hrefused⟩⟩ :=
      hs₁.environment.write hx hw
    · rw [hx']
      have hlift : lift (v'.mutate p) s₁' = .ok w' s₁' := by
        rw [hw']
        rfl
      refine ρ.ends_of_eq ((bind_of_ok hlift).trans (bind_of_ok (m := modifyEnvironment _) rfl)) ?_
      rw [hv.slot_eq, hv.type_eq]
      have hrest : Follows ρ Eq (fun r ↦ (do
          emitAccess st .store v.slot
          let _ ← operandFitting Γ r v.type
          modifyEnvironment (·.update x Variable.settle)
          return .nothingness : Analysis Ty)) _ :=
        .bind_same (.emitAccess _ _ _) fun _ ↦ .bind_same (.operandFitting _) fun _ ↦
          .bind_same (.modifyEnvironment fun _ _ he ↦ he.settleNamed _) fun _ ↦ .pure rfl
      have hstates : { s with cursor := d, environment := s.environment.update x fun _ ↦ w }.Freezes
          ρ.origin ρ.behind { s₁' with environment := s₁'.environment.update x fun _ ↦ w' } :=
        { hs₁ with environment := henvironment }
      exact hrest.ends hstates hrun hcovers
    · rw [hx']
      refine .inr ⟨htells u v (peek_of_advance hadvance) hu hx hspan, p, s₁', ?_⟩
      refine bind_of_error ?_
      rw [hrefused]
      rfl

/-- **The declaration does what the assignment did.** -/
theorem ends_introduction {u : Token} (hs : s.Freezes ρ.origin ρ.behind s')
    (hrun : assign Γ ρ.expressions s = .ok ty t) (hcovers : ρ.Covers (fun r ↦ assign Γ r) s t)
    (hpeek : s.cursor.peek = some u) (hnamed : ρ.origin.isNamedBy u)
    (hx : s.environment.resolve? ρ.origin.name = none) :
    ρ.Ends Eq (declareFrozen Γ ρ.expressions s') ty t := by
  obtain ⟨⟨x, p⟩, s₁, hname, hrun⟩ := bind_ok hrun
  obtain ⟨s₁', hname', hs₁⟩ := exists_variableName hs hname
  replace hcovers := hcovers.behind (.reading .variableName) hname
  obtain ⟨u', d, hadvance, hu, hspan, rfl⟩ := exists_advance_of_variableName hname
  cases hpeek.symm.trans (peek_of_advance hadvance)
  obtain ⟨hnamed, hplace⟩ := Origin.isNamedBy_iff.mp hnamed
  obtain rfl : ρ.origin.name = x := Option.some.inj (hnamed.symm.trans hu)
  obtain rfl : ρ.origin.place = p := hplace.symm.trans hspan
  obtain ⟨found?, s₂, hfound, hrun⟩ := bind_ok hrun
  replace hcovers := hcovers.behind (.resolve? _) hfound
  obtain ⟨rfl, rfl⟩ := resolve?_ok hfound
  rw [hx] at hrun hcovers
  have hfree : s₁'.environment.current.contains ρ.origin.name = false :=
    (hs₁.environment.current.contains_eq _).trans (Environment.contains_current_of_resolve? hx)
  have hundeclared : requireUndeclared ρ.origin.name ρ.origin.place s₁' = .ok () s₁' := by
    refine (bind_of_ok (m := MonadState.get) rfl).trans ?_
    rw [hfree]
    rfl
  refine ρ.ends_of_eq ((bind_of_ok hname').trans (bind_of_ok hundeclared)) ?_
  refine (Follows.introduce (g := Variable.frozen) fun _ _ ↦ .frozen ?_).ends hs₁ hrun hcovers
  exact Variable.comesFrom_iff.mpr ⟨rfl, rfl⟩

end Replacement

/-! ## Whole runs -/

namespace Query

variable {q q' : Query} {n n' : Nat} {t : Ty} {s : State}

theorem nothingness_of_assign (hassign : q.token.asksFor .assign)
    (hanswer : (Analysis.expression n).answer q = .ok t s) : t = .nothingness := by
  cases n with
  | zero => cases hanswer
  | succ n =>
    rw [answer_of_asksFor hassign nofun] at hanswer
    obtain ⟨x, s₁, -, hrun⟩ := bind_ok hanswer
    obtain ⟨found?, s₂, -, hrun⟩ := bind_ok hrun
    cases found? with
    | none =>
      obtain ⟨v, s₃, -, hrun⟩ := bind_ok hrun
      obtain ⟨_, s₄, -, hrun⟩ := bind_ok hrun
      exact (pure_ok hrun).1.symm
    | some found =>
      obtain ⟨w, s₃, -, hrun⟩ := bind_ok hrun
      obtain ⟨_, s₄, -, hrun⟩ := bind_ok hrun
      obtain ⟨_, s₅, -, hrun⟩ := bind_ok hrun
      obtain ⟨_, s₆, -, hrun⟩ := bind_ok hrun
      obtain ⟨_, s₇, -, hrun⟩ := bind_ok hrun
      exact (pure_ok hrun).1.symm

/-- What is inside of an assignment has fewer tokens behind it. -/
theorem remaining_lt_of_leads (hassign : q.token.asksFor .assign) (h : q.Leads n n' q')
    (hanswer : (Analysis.expression n).answer q = .ok t s) :
    q'.state.cursor.remaining < q.state.cursor.remaining := by
  obtain ⟨k, rfl, hreaches⟩ := h
  obtain ⟨q₁, hq₁, hinside⟩ := hreaches.exists_asks
  have hfirst : q₁.state.cursor.remaining < q.begun.cursor.remaining := by
    have hrec := Analysis.goesOnward_expression k
    have hasked : Asks (Analysis.expression k) (fun r ↦ assign q.setting r) q.begun q₁ :=
      hq₁.begun hassign nofun
    refine Traverses.remaining_lt_of_asks (fun _ _ _ ↦ remaining_lt_of_variableName)
      (fun x ↦ .bind (.const (.resolve? _)) fun found? ↦ ?_) hasked
    cases found? with
    | none => exact .bind (.storeNew hrec _) fun _ ↦ .bind (.const (.declare _)) fun _ ↦ .pure _
    | some found =>
      exact .bind (.const (.lift _)) fun _ ↦ .bind (.const (.modifyEnvironment _)) fun _ ↦
        .bind (.const (.emitAccess _ _ _)) fun _ ↦ .bind (.operandFitting hrec _) fun _ ↦
        .bind (.const (.modifyEnvironment _)) fun _ ↦ .pure _
  obtain ⟨t₁, s₁, hanswer₁⟩ := hq₁.answered hanswer
  obtain ⟨t', s', hanswer'⟩ := hreaches.answered hanswer
  have honward := Reaches.onward_of_eq_or_leads hinside hanswer₁ hanswer'
  exact Nat.lt_of_le_of_lt honward.1.remaining_le hfirst

/-- The assignment that is replaced, seen from an analysis with `n` levels of nesting. -/
def replacement (q : Query) (o : Origin) (Written : Prop)
    (hanswer : (Analysis.expression n).answer q = .ok t s) (k : Nat) : Replacement where
  origin := o
  behind := q.state.cursor.remaining
  expressions := Analysis.expression k
  Contains q' := n = k ∧ q = q' ∨ q'.Leads k n q
  Written := Written
  onward := Analysis.goesOnward_expression k
  nothingness := nothingness_of_assign
  begins hcontains hanswer' :=
    (Reaches.onward_of_eq_or_leads hcontains hanswer' hanswer).1.remaining_le
  ends hcontains hanswer' := by
    have hle := (Analysis.goesOnward_expression n _ _ _ _ _ _ hanswer).remaining_le
    have honward := Reaches.onward_of_eq_or_leads hcontains hanswer' hanswer
    exact Nat.le_trans honward.2.remaining_le hle

/-- There is one assignment with as many tokens behind it as the one that is replaced has. -/
theorem eq_of_remaining_eq {q₀ : Query} {n₀ : Nat} {o : Origin} {Written : Prop} {t₀ : Ty}
    {s₀ : State} (hanswer₀ : (Analysis.expression n₀).answer q₀ = .ok t₀ s₀)
    (hassign : q.token.asksFor .assign) (hanswer : (Analysis.expression n).answer q = .ok t s)
    (hremaining : q.state.cursor.remaining = q₀.state.cursor.remaining)
    (hplace : q.state.cursor.remaining < q₀.state.cursor.remaining
      ∨ q₀.state.cursor.remaining < s.cursor.remaining
      ∨ (q₀.replacement o Written hanswer₀ n).Contains q) : n₀ = n ∧ q₀ = q := by
  rcases hplace with hlt | hahead | hsame | hleads
  · exact absurd hremaining (Nat.ne_of_lt hlt)
  · have hle := (Analysis.goesOnward_expression _ _ _ _ _ _ _ hanswer).remaining_le
    exact absurd (Nat.lt_of_lt_of_le hahead hle) (Nat.not_lt.mpr (Nat.le_of_eq hremaining))
  · exact hsame
  · exact absurd hremaining (Nat.ne_of_gt (remaining_lt_of_leads hassign hleads hanswer))

end Query

/-- Two analyses that begin an expression are at one place there, too. -/
theorem State.Freezes.begun {o : Origin} {behind : Nat} {q : Query} {s' : State}
    (hs : q.state.Freezes o behind s') :
    q.begun.Freezes o behind (Query.mk q.setting q.token q.hint s').begun :=
  { hs with
    assembler := congrArg (·.atLine q.token.span.line) hs.assembler
    frame := congrArg (fun f : Frame ↦ { f with hasEffect := true }) hs.frame }

/-- What a run through an expression covers, its construct covers. -/
theorem Replacement.Covers.begun {ρ : Replacement} {q : Query} {asked : Construct} {s : State}
    (h : ρ.Covers (fun r ↦ Analysis.expressionStep r q.setting q.token q.hint) q.state s)
    (hasks : q.token.asksFor asked) (hasked : asked ≠ .returning) :
    ρ.Covers (fun r ↦ construct q.setting r q.token asked.spelling q.hint) q.begun s := by
  simp only [expressionStep_of_asksFor hasks hasked] at h
  exact (h.behind (.step (.setLine _)) rfl).behind (.modifyFrame _) rfl

section

variable {α : Type} {m : Recursion → Analysis α} {fuel n n₀ : Nat} {s s₀ : State} {q q₀ : Query}
  {o : Origin} {t₀ : Ty}

/-- **Every expression that a run gets to is repeated** in the second body, or it is known that the
variable is written again. -/
theorem Reaches.repeats {Written : Prop} (h : Reaches m fuel s n q) (hintroduces : q₀.Introduces o)
    (hanswer₀ : (Analysis.expression n₀).answer q₀ = .ok t₀ s₀)
    (hwritten : ∀ n q, Reaches m fuel s n q → q.Overwrites o → Written) :
    (q₀.replacement o Written hanswer₀ n).Repeats q := by
  induction n generalizing q with
  | zero =>
    intro s' t s₁ _ hanswer
    cases hanswer
  | succ n ih =>
    intro s' t s₁ hs hanswer hplace
    change (Analysis.expression (n + 1)).answer q = .ok t s₁ at hanswer
    have hcovers : (q₀.replacement o Written hanswer₀ n).Covers
        (fun r ↦ Analysis.expressionStep r q.setting q.token q.hint) q.state s₁ := by
      refine ⟨?_, fun q' hq' ↦ ih (h.nested hq')⟩
      rcases hplace with hlt | hahead | ⟨-, rfl⟩ | ⟨k, hk, hreaches⟩
      · exact .inl (Nat.le_of_lt hlt)
      · exact .inr (.inl hahead)
      · exact .inl (Nat.le_refl _)
      · cases hk
        obtain ⟨q₁, hq₁, hinside⟩ := hreaches.exists_asks
        exact .inr (.inr ⟨q₁, hq₁, hinside⟩)
    change (q₀.replacement o Written hanswer₀ n).Ends Eq ((Analysis.expression (n + 1)).answer
      ⟨q.setting, if q.state.cursor.remaining = q₀.state.cursor.remaining then q.token.freezing
        else q.token, q.hint, s'⟩) t s₁
    by_cases hreplaced : q.state.cursor.remaining = q₀.state.cursor.remaining
        ∧ q.token.asksFor .assign
    · obtain ⟨hremaining, hassign⟩ := hreplaced
      obtain ⟨rfl, rfl⟩ := Query.eq_of_remaining_eq hanswer₀ hassign hanswer hremaining hplace
      have hline : (Query.mk q₀.setting q₀.token.freezing q₀.hint s').begun
          = (Query.mk q₀.setting q₀.token q₀.hint s').begun := by
        rw [Query.begun, Query.begun, Token.freezing_span]
      obtain ⟨u, hpeek, hnamed⟩ := hintroduces.named
      rw [Query.answer_of_asksFor hassign (by decide)] at hanswer
      have hfrozen :
          (Query.mk q₀.setting q₀.token.freezing q₀.hint s').token.asksFor .declareFrozen :=
        Token.freezing_of_asksFor hassign
      rw [if_pos rfl]
      refine Replacement.ends_of_eq _ (Query.answer_of_asksFor hfrozen (by decide)) ?_
      rw [hline]
      exact Replacement.ends_introduction (ρ := q₀.replacement o Written hanswer₀ n) hs.begun
        hanswer (hcovers.begun hassign (by decide)) hpeek hnamed hintroduces.unresolved
    · rw [Token.ite_freezing_eq_self hreplaced]
      cases hwrites : q.token.construct?.any (·.writes) with
      | false =>
        exact (Follows.expressionStep (ρ := q₀.replacement o Written hanswer₀ n) q.hint
          hwrites).ends hs hanswer hcovers
      | true =>
        have htells : (q₀.replacement o Written hanswer₀ n).Tells q.begun :=
          fun u v hpeek hu hx hspan ↦
            hwritten (n + 1) q h ⟨hwrites, ⟨u, hpeek, hu⟩, v, hx, hspan⟩
        rcases Token.asksFor_of_writes hwrites with hasks | hasks | hasks
        all_goals
          rw [Query.answer_of_asksFor hasks (by decide)] at hanswer
          refine Replacement.ends_of_eq _
            (Query.answer_of_asksFor (q := ⟨_, q.token, _, s'⟩) hasks (by decide)) ?_
        · exact Replacement.ends_assign hs.begun hanswer (hcovers.begun hasks (by decide)) htells
        · exact Replacement.ends_stepVariable hs.begun hanswer htells
        · exact Replacement.ends_stepVariable hs.begun hanswer htells

end

end Pictograph
