import Pictograph.Proofs.Analysis.Expressions

/-!
# Expressions start apart

Every expression but a declaration writes a word of code before it asks for the expressions inside
it. So these have their code behind that word, and the offset of the word belongs to the expression
alone: of two expressions with code that start at one offset, neither is inside the other and
neither is in front of the other. They are the same expression.

This is what makes the places of the expressions of a body determine the outline of its code.

## Main definitions

* `Advances`: an analysis writes a word before it asks for an expression.

## Main results

* `Query.advances`: every expression but a declaration does.
* `Reaches.eq_of_offset_eq`: expressions with code that start at one offset are the same.
* `Places.functional_of_answered`: so their places are determined by their offsets.
-/

namespace Pictograph

variable {α : Type} {m : Recursion → Analysis α} {rec : Recursion} {s s' : State} {a : α}
  {q q' : Query} {t t' : Ty} {fuel n n' : Nat}

theorem State.Onward.offset_le (h : s.Onward s') : s.offset ≤ s'.offset := h.code.size_le

/-! ## Words of its own -/

/-- An analysis writes a word before it asks for an expression. -/
structure Advances (rec : Recursion) (m : Recursion → Analysis α) : Prop where
  traverses : Traverses State.Onward rec m
  asks : ∀ {s q}, Asks rec m s q → s.offset < q.state.offset
  ends : ∀ {s a s'}, m rec s = .ok a s' → s.offset < s'.offset

namespace Advances

open Analysis

variable {β : Type} {f : Recursion → α → Analysis β}

/-- A step that writes something. -/
theorem const {x : Analysis α} (hx : x.GoesOnward)
    (h : ∀ s a s', x s = .ok a s' → s.offset < s'.offset) : Advances rec fun _ ↦ x :=
  ⟨.const hx, fun hq ↦ absurd hq Asks.not_const, h _ _ _⟩

theorem first (h : Advances rec m) (h' : ∀ a, Traverses State.Onward rec fun r ↦ f r a) :
    Advances rec fun r ↦ m r >>= f r where
  traverses := h.traverses.bind h'
  asks hq := by
    rcases h.traverses.asks_bind hq with hq | ⟨a, s₁, ha, hq⟩
    · exact h.asks hq
    · exact Nat.lt_of_lt_of_le (h.ends ha) ((h' a).through hq).1.offset_le
  ends hb := by
    obtain ⟨a, s₁, ha, hb⟩ := bind_ok hb
    exact Nat.lt_of_lt_of_le (h.ends ha) ((h' a).onward _ _ _ hb).offset_le

theorem behind {x : Analysis α} (hx : x.GoesOnward) (h : ∀ a, Advances rec fun r ↦ f r a) :
    Advances rec fun r ↦ x >>= f r where
  traverses := (Traverses.const hx).bind fun a ↦ (h a).traverses
  asks hq := by
    obtain ⟨a, s₁, ha, hq⟩ := hq.of_const_bind
    exact Nat.lt_of_le_of_lt (hx _ _ _ ha).offset_le ((h a).asks hq)
  ends hb := by
    obtain ⟨a, s₁, ha, hb⟩ := bind_ok hb
    exact Nat.lt_of_le_of_lt (hx _ _ _ ha).offset_le ((h a).ends hb)

theorem throw (fault : Fault) : Advances rec fun _ ↦ (throw fault : Analysis α) :=
  .const (.throw fault) fun _ _ _ h ↦ nomatch h

theorem emit (op : Opcode) : Advances rec fun _ ↦ emit op :=
  .const (.emit op) fun s _ s' h ↦ by
    cases h
    exact Nat.lt_of_lt_of_eq (Nat.lt_succ_self _) (s.assembler.size_opcode op).symm

theorem reserve : Advances rec fun _ ↦ reserve :=
  .const .reserve fun s _ s' h ↦ by
    cases h
    exact Nat.lt_of_lt_of_eq (Nat.lt_succ_self _) (Array.size_push _).symm

theorem emitAccess (storage : Storage) (action : Access) (slot : Nat) :
    Advances rec fun _ ↦ emitAccess storage action slot :=
  .first (.emit _) fun _ ↦ .const <|
    .ite (.bind (.modifyFrame fun _ ↦ rfl) fun _ ↦ .emitNumber _) (.emitNumber _)

variable {Γ : Setting} {span : Span}

theorem readVariable (x : String) : Advances rec fun _ ↦ readVariable x span :=
  .behind (.resolve? _) fun _ ↦ .behind (.demand _ _) fun _ ↦ .behind (.lift _) fun _ ↦
    .first (.emitAccess _ _ _) fun _ ↦ .pure _

theorem stepVariable (construct : Construct) (action : Access) :
    Advances rec fun _ ↦ stepVariable Γ construct action :=
  .behind (.reading .variableName) fun _ ↦ .behind (.resolve? _) fun _ ↦
    .behind (.demand _ _) fun _ ↦ .behind (.lift _) fun _ ↦ .behind (.require _ _) fun _ ↦
    .behind (.lift _) fun _ ↦ .behind (.modifyEnvironment _) fun _ ↦
    .first (.emitAccess _ _ _) fun _ ↦ .pure _

theorem storeNew (hrec : rec.GoesOnward) (x : String) : Advances rec fun r ↦ storeNew Γ r x span :=
  .first (.emit _) fun _ ↦ .bind (.const .newSlot) fun _ ↦ .bind (.const (.emitNumber _)) fun _ ↦
    .bind (.operand hrec) fun _ ↦ .pure _

theorem declareFrozen (hrec : rec.GoesOnward) : Advances rec fun r ↦ declareFrozen Γ r :=
  .behind (.reading .variableName) fun _ ↦ .behind (.requireUndeclared _) fun _ ↦
    .first (.storeNew hrec _) fun _ ↦ .bind (.const (.declare _)) fun _ ↦ .pure _

theorem assign (hrec : rec.GoesOnward) : Advances rec fun r ↦ assign Γ r := by
  refine .behind (.reading .variableName) fun _ ↦ .behind (.resolve? _) fun found? ↦ ?_
  dsimp only
  split
  · exact .first (.storeNew hrec _) fun _ ↦ .bind (.const (.declare _)) fun _ ↦ .pure _
  · exact .behind (.lift _) fun _ ↦ .behind (.modifyEnvironment _) fun _ ↦
      .first (.emitAccess _ _ _) fun _ ↦ .bind (.operandFitting hrec _) fun _ ↦
      .bind (.const (.modifyEnvironment _)) fun _ ↦ .pure _

/-- A loop over the elements of a value reserves the word of its opcode. -/
theorem forIn (hrec : rec.GoesOnward)
    (h : Traverses State.Onward rec fun r ↦ conditionalBlock Γ r) :
    Advances rec fun r ↦ forIn Γ r span := by
  refine .first .reserve fun _ ↦ .bind (.const (.reading .variableName)) fun _ ↦
    .bind (.inScope ?_) fun _ ↦ .pure _
  exact .bind (.const .newSlot) fun _ ↦ .bind (.const (.emitNumber _)) fun _ ↦
    .bind (.const .newSlot) fun _ ↦ .bind (.const (.emitNumber _)) fun _ ↦
    .bind (.operandFitting hrec _) fun _ ↦ .bind (.const (.demand _ _)) fun _ ↦
    .bind (.const (.filling Assembler.preserves_fillOpcode?)) fun _ ↦
    .bind (.const (.declare _)) fun _ ↦ h

theorem closure (hrec : rec.GoesOnward) : Advances rec fun r ↦ closure Γ r := by
  have hopen : Advances rec fun _ ↦ openClosure Γ :=
    .behind (Traverses.composed (W := fun _ ↦ True) hrec composed_closureArguments).onward fun _ ↦
      .behind (Traverses.composed (W := fun _ ↦ True) hrec composed_closureResult).onward fun _ ↦
      .first (.emit _) fun _ ↦ .bind (.const .reserve) fun _ ↦ .bind (.const .reserveCount) fun _ ↦
      .pure _
  simp only [closure_eq]
  exact .first hopen fun _ ↦ .bind (.enclosed hrec _ _) fun _ ↦ .const .closeClosure

end Advances

/-- What is put together so that it writes a word first does so. -/
theorem Opening.advances {W : Construct → Prop} (hrec : rec.GoesOnward) (h : Opening W m) :
    Advances rec m := by
  induction h with
  | throw fault => exact .throw fault
  | emit => exact .emit _
  | reserve => exact .reserve
  | readVariable x span => exact .readVariable x
  | stepVariable Γ construct => exact .stepVariable construct _
  | assign => exact .assign hrec
  | declareFrozen => exact .declareFrozen hrec
  | forIn _ _ _ h => exact .forIn hrec (.composed hrec h)
  | first _ h' ih => exact ih.first fun a ↦ .composed hrec (h' a)
  | behind h _ ih' => exact .behind (Traverses.composed hrec h).onward ih'

/-- **Every expression but a declaration writes a word of its own first.** -/
theorem Query.advances (n : Nat) (h : q.token.asksFor .declare = false) :
    Advances (Analysis.expression n)
      fun r ↦ Analysis.expressionStep r q.setting q.token q.hint := by
  have hrec := Analysis.goesOnward_expression n
  by_cases hclosure : q.token.asksFor .blockOpen
  · simp only [expressionStep_of_asksFor hclosure nofun]
    exact .behind (.step (.setLine _)) fun _ ↦
      .behind (.modifyFrame _) fun _ ↦ .closure hrec
  · exact (opening_expressionStep (W := fun _ ↦ True) (eq_false_of_ne_true hclosure) h
      (fun _ _ ↦ trivial) q.hint).advances hrec

/-- A declaration has no code. -/
theorem Query.offset_of_declare (h : q.token.asksFor .declare)
    (hanswer : (Analysis.expression n).answer q = .ok t s') : s'.offset = q.state.offset := by
  cases n with
  | zero => cases hanswer
  | succ n =>
    rw [q.answer_of_asksFor h nofun] at hanswer
    have hrun : Analysis.declareVariable q.setting q.begun = .ok t s' := hanswer
    obtain ⟨hwrites, -⟩ :=
      Analysis.writes_declareVariable (π := .ofAnalysis fun _ _ ↦ True) hrun
    exact State.offset_congr (hwrites.listing.trans (List.append_nil _))

/-! ## Expressions that start at one offset -/

/-- All that is reached from an analysis that writes a word first is behind the word. -/
theorem Advances.lt_offset (h : Advances (Analysis.expression fuel) m)
    (hrun : m (Analysis.expression fuel) s = .ok a s') (hq : Reaches m fuel s n q) :
    s.offset < q.state.offset := by
  obtain ⟨q₁, hasked, hinside⟩ := hq.exists_asks
  obtain ⟨t₁, s₁, hanswer₁⟩ := hasked.answered hrun
  obtain ⟨t, s₂, hanswer⟩ := hq.answered hrun
  have honward := Reaches.onward_of_eq_or_leads hinside hanswer₁ hanswer
  exact Nat.lt_of_lt_of_le (h.asks hasked) honward.1.offset_le

/-- Expressions inside one with code start behind its first word. -/
theorem Query.lt_offset_of_leads (hanswer : (Analysis.expression n).answer q = .ok t s')
    (hcode : q.state.offset < s'.offset) (h : q.Leads n n' q') :
    q.state.offset < q'.state.offset := by
  obtain ⟨k, rfl, hq'⟩ := h
  have hdeclare : q.token.asksFor .declare = false := by
    by_contra hdeclare
    exact absurd (offset_of_declare (eq_true_of_ne_false hdeclare) hanswer) (Nat.ne_of_gt hcode)
  exact (q.advances k hdeclare).lt_offset hanswer hq'

namespace Reaches

variable {s₁ s₂ : State} (h : Reaches m fuel s n q) (h' : Reaches m fuel s n' q')
  (hm : Traverses State.Onward (Analysis.expression fuel) m)
  (hrun : m (Analysis.expression fuel) s = .ok a s')

include h h' hm hrun

/-- **Expressions with code start apart.** If two of them start at one offset, they are the same. -/
theorem eq_of_offset_eq (hanswer : (Analysis.expression n).answer q = .ok t s₁)
    (hanswer' : (Analysis.expression n').answer q' = .ok t' s₂)
    (hcode : q.state.offset < s₁.offset) (hcode' : q'.state.offset < s₂.offset)
    (hoffset : q.state.offset = q'.state.offset) : n = n' ∧ q = q' := by
  rcases h.nested_or_apart h' hm hrun with heq | hin | hin | hbefore | hbefore
  · exact heq
  · exact absurd hoffset (Nat.ne_of_lt (q.lt_offset_of_leads hanswer hcode hin))
  · exact absurd hoffset.symm (Nat.ne_of_lt (q'.lt_offset_of_leads hanswer' hcode' hin))
  · exact absurd hoffset
      (Nat.ne_of_lt (Nat.lt_of_lt_of_le hcode (hbefore t s₁ hanswer).offset_le))
  · exact absurd hoffset.symm
      (Nat.ne_of_lt (Nat.lt_of_lt_of_le hcode' (hbefore t' s₂ hanswer').offset_le))

end Reaches

/-- An expression that is answered with code is the only one at its offset. -/
theorem Answered.eq_of_offset_eq {s₁ s₂ : State} (h : Answered m fuel s q s₁)
    (h' : Answered m fuel s q' s₂) (hm : Traverses State.Onward (Analysis.expression fuel) m)
    (hrun : m (Analysis.expression fuel) s = .ok a s') (hcode : q.state.offset < s₁.offset)
    (hcode' : q'.state.offset < s₂.offset) (hoffset : q.state.offset = q'.state.offset) :
    q = q' ∧ s₁ = s₂ := by
  obtain ⟨n, t, hq, hanswer⟩ := h
  obtain ⟨n', t', hq', hanswer'⟩ := h'
  obtain ⟨rfl, rfl⟩ := hq.eq_of_offset_eq hq' hm hrun hanswer hanswer' hcode hcode' hoffset
  cases hanswer.symm.trans hanswer'
  exact ⟨rfl, rfl⟩

/-- An expression that asks for something else than a declaration has code. -/
theorem Answered.lt_offset {s₁ : State} (h : Answered m fuel s q s₁)
    (hdeclare : q.token.asksFor .declare = false) : q.state.offset < s₁.offset := by
  obtain ⟨n, t, -, hanswer⟩ := h
  cases n with
  | zero => cases hanswer
  | succ n => exact (q.advances n hdeclare).ends hanswer

/-- A declaration uses no value. -/
theorem Query.Reads.asksFor_declare {x : String} (h : q.Reads x) :
    q.token.asksFor .declare = false := by
  rcases h with hlexeme | ⟨symbol, span, cursor, hlexeme, hstep, -⟩
  · rw [Token.asksFor, Token.construct?, Token.identifier?, hlexeme]
    rfl
  · have hasks {asked : Construct} (h : Construct.ofSymbol symbol = asked) :
        q.token.asksFor asked := by
      refine Token.asksFor_iff.mpr ⟨symbol, ?_, h⟩
      rw [Token.identifier?, hlexeme]
    rcases hstep with hstep | hstep
    · exact Token.asksFor_of_ne (hasks hstep) (by decide)
    · exact Token.asksFor_of_ne (hasks hstep) (by decide)

/-- An expression uses the value of one variable. -/
theorem Query.Reads.eq {x y : String} (h : q.Reads x) (h' : q.Reads y) : x = y := by
  rcases h with hlexeme | ⟨symbol, span, cursor, hlexeme, -, hx⟩ <;>
    rcases h' with hlexeme' | ⟨symbol', span', cursor', hlexeme', -, hy⟩
  all_goals cases hlexeme.symm.trans hlexeme'
  · rfl
  · cases hx.symm.trans hy
    rfl

/-- **At an offset one variable is used.** -/
theorem ReadsAt.unique {offset : Nat} {st st' : Storage} {v v' : Variable}
    (hm : Traverses State.Onward (Analysis.expression fuel) m)
    (hrun : m (Analysis.expression fuel) s = .ok a s') (h : ReadsAt (Answered m fuel s) offset st v)
    (h' : ReadsAt (Answered m fuel s) offset st' v') : st = st' ∧ v = v' := by
  obtain ⟨q, s₁, x, hq, rfl, hreads, hv⟩ := h
  obtain ⟨q', s₂, x', hq', hoffset, hreads', hv'⟩ := h'
  obtain ⟨rfl, rfl⟩ := hq.eq_of_offset_eq hq' hm hrun (hq.lt_offset hreads.asksFor_declare)
    (hq'.lt_offset hreads'.asksFor_declare) hoffset.symm
  obtain rfl := hreads.eq hreads'
  cases hv.symm.trans hv'
  exact ⟨rfl, rfl⟩

/-- A declaration passes on no arguments. -/
theorem Query.Passes.asksFor_declare {count : Nat} (h : q.Passes count) :
    q.token.asksFor .declare = false := by
  obtain ⟨n, symbol, s₁, hsymbol, hrun⟩ := h
  by_contra hdeclare
  obtain ⟨symbol', hsymbol', hasks⟩ := Token.asksFor_iff.mp (eq_true_of_ne_false hdeclare)
  cases hsymbol.symm.trans hsymbol'
  simp only [Analysis.passed?, Analysis.lookup?, hasks] at hrun
  cases hrun

/-- **The call at an offset passes on one number of arguments.** -/
theorem CalleeAt.unique {offset count count' : Nat}
    (hm : Traverses State.Onward (Analysis.expression fuel) m)
    (hrun : m (Analysis.expression fuel) s = .ok a s')
    (h : CalleeAt (Answered m fuel s) offset count)
    (h' : CalleeAt (Answered m fuel s) offset count') : count = count' := by
  obtain ⟨q, s₁, hq, rfl, hpasses⟩ := h
  obtain ⟨q', s₂, hq', hoffset, hpasses'⟩ := h'
  obtain ⟨rfl, rfl⟩ := hq.eq_of_offset_eq hq' hm hrun (hq.lt_offset hpasses.asksFor_declare)
    (hq'.lt_offset hpasses'.asksFor_declare) hoffset.symm
  obtain ⟨n, symbol, s₁, hsymbol, hpassed⟩ := hpasses
  obtain ⟨n', symbol', s₁', hsymbol', hpassed'⟩ := hpasses'
  cases hsymbol.symm.trans hsymbol'
  exact Option.some.inj (Analysis.eq_of_runs (fun n ↦ .composed (W := fun _ ↦ True)
    (Analysis.goesOnward_expression n) Analysis.composed_passed?) hpassed hpassed').1

/-- **The closure at an offset has one return type.** -/
theorem ReturnsAt.unique {offset : Nat} {result result' : Ty}
    (hm : Traverses State.Onward (Analysis.expression fuel) m)
    (hrun : m (Analysis.expression fuel) s = .ok a s')
    (h : ReturnsAt (Answered m fuel s) offset result)
    (h' : ReturnsAt (Answered m fuel s) offset result') : result = result' := by
  obtain ⟨q, s₁, hq, rfl, hclosure, n, types, s₂, hanswer⟩ := h
  obtain ⟨q', s₁', hq', hoffset, hclosure', n', types', s₂', hanswer'⟩ := h'
  obtain ⟨rfl, rfl⟩ := hq.eq_of_offset_eq hq' hm hrun
    (hq.lt_offset (Token.asksFor_of_ne hclosure nofun))
    (hq'.lt_offset (Token.asksFor_of_ne hclosure' nofun)) hoffset.symm
  cases (Analysis.expression_within (Nat.le_max_left n n') q _ _ hanswer).symm.trans
    (Analysis.expression_within (Nat.le_max_right n n') q _ _ hanswer')
  rfl

/-- The frame of a closure does not depend on the levels of nesting that are left. -/
theorem Encloses.eq_of_encloses {Γ : Setting} {arguments arguments' : List Argument}
    {entry entry' ending ending' : State}
    (h : Encloses Γ (Analysis.expression n) s arguments entry ending)
    (h' : Encloses Γ (Analysis.expression n') s arguments' entry' ending') :
    arguments = arguments' ∧ entry = entry' ∧ ending = ending' := by
  obtain ⟨harguments, hresult, hdeclare, htake, hstatements⟩ := h
  obtain ⟨harguments', hresult', hdeclare', htake', hstatements'⟩ := h'
  cases harguments.symm.trans harguments'
  cases hresult.symm.trans hresult'
  cases hdeclare.symm.trans hdeclare'
  cases htake.symm.trans htake'
  obtain ⟨-, rfl⟩ := Analysis.eq_of_runs (m := fun r ↦ Analysis.bodyStatements (Γ.ofClosure _) r)
    (fun n ↦ .composed (W := fun _ ↦ True) (Analysis.goesOnward_expression n)
      composed_bodyStatements)
    hstatements hstatements'
  exact ⟨rfl, rfl, rfl⟩

/-- **The places of the expressions of a run are determined by their offsets.** -/
theorem Places.functional_of_answered (hm : Traverses State.Onward (Analysis.expression fuel) m)
    (hrun : m (Analysis.expression fuel) s = .ok a s') :
    (Places.ofAnalysis (Answered m fuel s)).Functional where
  spans {k l l'} hl hl' h h' := by
    obtain ⟨q, s₁, hq, rfl, rfl⟩ := h
    obtain ⟨q', s₂, hq', hoffset, rfl⟩ := h'
    obtain ⟨-, rfl⟩ := hq.eq_of_offset_eq hq' hm hrun hl (hoffset ▸ hl') hoffset.symm
    rfl
  frames {k slots slots' captured captured'} h h' := by
    obtain ⟨q, s₁, hq, rfl, hclosure, rfl, n, arguments, entry, ending, hframe, rfl⟩ := h
    obtain ⟨q', s₂, hq', hoffset, hclosure', rfl, n', arguments', entry', ending', hframe', rfl⟩ :=
      h'
    obtain ⟨rfl, rfl⟩ := hq.eq_of_offset_eq hq' hm hrun
      (hq.lt_offset (Token.asksFor_of_ne hclosure nofun))
      (hq'.lt_offset (Token.asksFor_of_ne hclosure' nofun)) hoffset.symm
    obtain ⟨-, -, rfl⟩ := hframe.eq_of_encloses hframe'
    exact ⟨rfl, rfl⟩

end Pictograph
