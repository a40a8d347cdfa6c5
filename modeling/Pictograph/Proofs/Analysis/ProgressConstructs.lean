import Pictograph.Proofs.Analysis.Progress

/-!
# Every construct proceeds

Each construct goes through its tokens and writes its code in one go, if the expressions inside it
do. Each of them is followed through its text once. Expressions are nested no deeper than the fuel,
so by induction on it all of them proceed.

Names stand in front of what is looked up under them. So a name is read as one that is found only
because the rest of the construct succeeds.

## Main definitions

* `Proceeds`: a successful analysis leads from where it starts to where it ends.
* `Closes`: it ends behind the mark that closes a block.

## Main results

* `Analysis.proceeds_expression`: every expression proceeds from its first token.
* `Analysis.closes_body`: every body that is analysed to its end ends behind its mark.
-/

namespace Pictograph

open Progress

/-- Whatever analysis succeeds leads from `p` to where it ends. -/
def ProceedsFrom {α : Type} (cat : Catalogue) (p : Progress) (m : Analysis α) (s : State) : Prop :=
  ∀ a s', m s = .ok a s' → p.Leads cat s'.progress

/-- A successful analysis leads from where it starts to where it ends. -/
abbrev Proceeds {α : Type} (cat : Catalogue) (m : Analysis α) (s : State) : Prop :=
  ProceedsFrom cat s.progress m s

/-- A successful analysis leads from where it starts to the mark that closes a block, and ends
behind it. -/
def Closes {α : Type} (cat : Catalogue) (m : Analysis α) (s : State) : Prop :=
  ∀ a s', m s = .ok a s' → ∃ t, t.asksFor .blockClose ∧ s.progress.Leads cat (s'.progress.unread t)

/-- A successful analysis leads to the mark that closes a block, and from behind it to where it
ends. -/
def Finishes {α : Type} (cat : Catalogue) (m : Analysis α) (s : State) : Prop :=
  ∀ a s', m s = .ok a s' → ∃ (t : Token) (p : Progress), t.asksFor .blockClose
    ∧ s.progress.Leads cat (p.unread t) ∧ p.Leads cat s'.progress

/-- A successful analysis neither reads nor writes. -/
def Rests {α : Type} (m : Analysis α) (s : State) : Prop :=
  ∀ a s', m s = .ok a s' → s'.progress = s.progress

/-- A successful analysis shows that something is found under a symbol. -/
def Reveals {α : Type} (cat : Catalogue) (symbol : Symbol) (m : Analysis α) (s : State) : Prop :=
  ∀ a s', m s = .ok a s' → cat.Finds symbol

/-- All expressions proceed from their first token, wherever they are analysed. -/
def Recursion.Proceeds (rec : Recursion) : Prop :=
  ∀ Γ token hint s, ProceedsFrom Γ.catalogue (s.progress.unread token) (rec Γ token hint) s

/-! ## Rules -/

/-- The token that is read is the first of those that were left. -/
theorem Analysis.progress_of_next {t : Token} {s s' : State} (h : next s = .ok t s') :
    s.progress = s'.progress.unread t := by
  obtain ⟨cursor, hnext, rfl⟩ := reading_ok h
  exact seek_of_advance (p := s.progress) (Reading.next_ok hnext)

theorem Analysis.rests_get {s : State} : Rests (get : Analysis State) s := by
  rintro _ _ ⟨⟩
  rfl

theorem Analysis.proceeds_get {cat : Catalogue} {s : State} :
    Proceeds cat (get : Analysis State) s := by
  rintro _ _ ⟨⟩
  exact .refl _

section

variable {α β σ : Type} {cat : Catalogue} {p : Progress} {m : Analysis α} {f : α → Analysis β}
  {s : State}

namespace ProceedsFrom

theorem bind (h : ProceedsFrom cat p m s)
    (h' : ∀ a s₁, m s = .ok a s₁ → Proceeds cat (f a) s₁) : ProceedsFrom cat p (m >>= f) s := by
  intro b s' hb
  obtain ⟨a, s₁, ha, hb⟩ := Analysis.bind_ok hb
  exact (h a s₁ ha).trans (h' a s₁ ha b s' hb)

/-- What rests leaves a token to the step behind it. -/
theorem behind {t : Token} (h : Rests m s)
    (h' : ∀ a s₁, m s = .ok a s₁ → ProceedsFrom cat (s₁.progress.unread t) (f a) s₁) :
    ProceedsFrom cat (s.progress.unread t) (m >>= f) s := by
  intro b s' hb
  obtain ⟨a, s₁, ha, hb⟩ := Analysis.bind_ok hb
  have hlead := h' a s₁ ha b s' hb
  rwa [h a s₁ ha] at hlead

theorem rests (h : Rests m s) : Proceeds cat m s := by
  intro a s' ha
  rw [h a s' ha]
  exact .refl _

theorem pure (a : α) : Proceeds cat (pure a : Analysis α) s := by
  intro b s' hb
  rw [(Analysis.pure_ok hb).2]
  exact .refl _

theorem throw {fault : Fault} : ProceedsFrom cat p (throw fault : Analysis α) s :=
  fun _ _ h ↦ nomatch h

theorem ite {c : Prop} [Decidable c] {n : Analysis α} (h : ProceedsFrom cat p m s)
    (h' : ProceedsFrom cat p n s) : ProceedsFrom cat p (if c then m else n) s := by
  split
  · exact h
  · exact h'

/-- A step that may be left out. -/
theorem optional {c : Prop} [Decidable c] {x : Analysis Unit} {g : Unit → Analysis α}
    (h : Proceeds cat x s) (h' : ∀ s, Proceeds cat (g ()) s) :
    Proceeds cat (if c then x >>= g else g ()) s :=
  ite (h.bind fun _ _ _ ↦ h' _) (h' s)

theorem repeatUntil {step : σ → Analysis (σ ⊕ β)} (h : ∀ v s, Proceeds cat (step v) s) (v : σ) :
    Proceeds cat (Analysis.repeatUntil step v) s := by
  have hrepeating (fuel : Nat) (v : σ) (s : State) :
      Proceeds cat (Analysis.repeating step fuel v) s := by
    induction fuel generalizing v s with
    | zero => exact throw
    | succ fuel ih =>
      refine (h v s).bind fun x s₁ _ ↦ ?_
      cases x with
      | inl v' => exact ih v' s₁
      | inr b => exact pure b
  exact Analysis.proceeds_get.bind fun _ _ _ ↦ hrepeating _ v _

theorem forM {l : List β} {g : β → Analysis Unit} (h : ∀ b s, Proceeds cat (g b) s) :
    Proceeds cat (l.forM g) s := by
  induction l generalizing s with
  | nil => exact pure ()
  | cons b l ih => exact (h b s).bind fun _ _ _ ↦ ih

/-! ### Reading -/

/-- A token is read for the step behind it. -/
theorem next {g : Token → Analysis α}
    (h : ∀ t s, ProceedsFrom cat (s.progress.unread t) (g t) s) :
    Proceeds cat (Analysis.next >>= g) s := by
  intro a s' ha
  obtain ⟨t, s₁, ht, ha⟩ := Analysis.bind_ok ha
  rw [Analysis.progress_of_next ht]
  exact h t s₁ a s' ha

/-- A token that is no mark of a block and no string literal needs nothing else. -/
theorem plain {t : Token} (hs : t.string? = none) (ht : t.isPlain) (h : Proceeds cat m s) :
    ProceedsFrom cat (s.progress.unread t) m s :=
  fun a s' ha ↦ (Leads.read hs (.inl ht)).trans (h a s' ha)

/-- A name is read that is found. -/
theorem name {g : Symbol × Span → Analysis α} (hg : ∀ x s, Reveals cat x.1 (g x) s)
    (h : ∀ x s, Proceeds cat (g x) s) : Proceeds cat (Analysis.name >>= g) s := by
  intro a s' ha
  obtain ⟨x, s₁, hx, ha⟩ := Analysis.bind_ok ha
  obtain ⟨cursor, hname, rfl⟩ := Analysis.reading_ok hx
  refine Leads.trans ?_ (h x _ a s' ha)
  exact Leads.symbol (p := s.progress) (Reading.name_ok hname) (.inr (hg x _ a s' ha))

/-- Another source line begins in front of a token. -/
theorem line {t : Token} {number : Nat} {g : Unit → Analysis α}
    (h : ∀ s, ProceedsFrom cat (s.progress.unread t) (g ()) s) :
    ProceedsFrom cat (s.progress.unread t) (Analysis.setLine number >>= g) s := by
  intro a s' ha
  obtain ⟨_, s₁, hline, ha⟩ := Analysis.bind_ok ha
  cases hline
  have hlead := h _ a s' ha
  exact (Leads.edit (Assembler.edit_atLine number)).trans hlead

end ProceedsFrom

namespace Reveals

variable {symbol : Symbol}

theorem behind (h : ∀ a s₁, Reveals cat symbol (f a) s₁) : Reveals cat symbol (m >>= f) s := by
  intro b s' hb
  obtain ⟨a, s₁, -, hb⟩ := Analysis.bind_ok hb
  exact h a s₁ b s' hb

theorem demand {value? : Option α} {cause : Cause} {span : Span}
    (h : ∀ a, value? = some a → cat.Finds symbol) :
    Reveals cat symbol (Analysis.demand value? cause span >>= f) s := by
  intro b s' hb
  obtain ⟨a, s₁, ha, -⟩ := Analysis.bind_ok hb
  exact h a (Analysis.demand_ok ha).1

theorem ite {c : Prop} [Decidable c] {n : Analysis α} (h : Reveals cat symbol m s)
    (h' : Reveals cat symbol n s) : Reveals cat symbol (if c then m else n) s := by
  split
  · exact h
  · exact h'

/-- A step that may be left out. -/
theorem optional {c : Prop} [Decidable c] {x : Analysis Unit} {g : Unit → Analysis α}
    (h : ∀ s, Reveals cat symbol (g ()) s) :
    Reveals cat symbol (if c then x >>= g else g ()) s :=
  ite (behind fun _ _ ↦ h _) (h s)

end Reveals

theorem Rests.pure (a : α) : Rests (pure a : Analysis α) s := by
  intro b s' hb
  rw [(Analysis.pure_ok hb).2]

theorem Rests.bind (h : Rests m s) (h' : ∀ a s₁, Rests (f a) s₁) : Rests (m >>= f) s := by
  intro b s' hb
  obtain ⟨a, s₁, ha, hb⟩ := Analysis.bind_ok hb
  rw [h' a s₁ b s' hb, h a s₁ ha]

theorem Rests.ite {c : Prop} [Decidable c] {n : Analysis α} (h : Rests m s) (h' : Rests n s) :
    Rests (if c then m else n) s := by
  split
  · exact h
  · exact h'

/-! ### Blocks -/

namespace Closes

theorem bind (h : Proceeds cat m s) (h' : ∀ a s₁, Closes cat (f a) s₁) :
    Closes cat (m >>= f) s := by
  intro b s' hb
  obtain ⟨a, s₁, ha, hb⟩ := Analysis.bind_ok hb
  obtain ⟨t, ht, hlead⟩ := h' a s₁ b s' hb
  exact ⟨t, ht, (h a s₁ ha).trans hlead⟩

theorem rests (h : Closes cat m s) (h' : ∀ a s₁, Rests (f a) s₁) : Closes cat (m >>= f) s := by
  intro b s' hb
  obtain ⟨a, s₁, ha, hb⟩ := Analysis.bind_ok hb
  rw [h' a s₁ b s' hb]
  exact h a s₁ ha

/-- A repetition that goes on from every token but the mark that closes the block. -/
theorem repeating {step : σ → Token → Analysis (σ ⊕ β)} {answer : Token → β}
    (h : ∀ v t s x s', step v t s = .ok x s' →
      x.isLeft ∧ (s.progress.unread t).Leads cat s'.progress) (fuel : Nat) (v : σ) :
    Closes cat (Analysis.repeating (fun v ↦ do
      let t ← Analysis.next
      if t.asksFor .blockClose then
        return .inr (answer t)
      step v t) fuel v) s := by
  induction fuel generalizing v s with
  | zero => exact fun _ _ h ↦ nomatch h
  | succ fuel ih =>
    intro b s' hb
    obtain ⟨x, s₂, hx, hb⟩ := Analysis.bind_ok hb
    obtain ⟨t, s₁, ht, hx⟩ := Analysis.bind_ok hx
    rw [Analysis.progress_of_next ht]
    split at hx
    · next hclose =>
      cases hx
      cases hb
      exact ⟨t, hclose, .refl _⟩
    · obtain ⟨hleft, hlead⟩ := h v t s₁ x s₂ hx
      cases x with
      | inl v' =>
        obtain ⟨closing, hclose, hrest⟩ := ih v' b s' hb
        exact ⟨closing, hclose, hlead.trans hrest⟩
      | inr b' => cases hleft

theorem repeatUntil {step : σ → Token → Analysis (σ ⊕ β)} {answer : Token → β}
    (h : ∀ v t s x s', step v t s = .ok x s' →
      x.isLeft ∧ (s.progress.unread t).Leads cat s'.progress) (v : σ) :
    Closes cat (Analysis.repeatUntil (fun v ↦ do
      let t ← Analysis.next
      if t.asksFor .blockClose then
        return .inr (answer t)
      step v t) v) s :=
  bind Analysis.proceeds_get fun _ _ ↦ repeating h _ v

end Closes

namespace Finishes

theorem bind (h : Proceeds cat m s) (h' : ∀ a s₁, Finishes cat (f a) s₁) :
    Finishes cat (m >>= f) s := by
  intro b s' hb
  obtain ⟨a, s₁, ha, hb⟩ := Analysis.bind_ok hb
  obtain ⟨t, p, ht, hlead, hrest⟩ := h' a s₁ b s' hb
  exact ⟨t, p, ht, (h a s₁ ha).trans hlead, hrest⟩

theorem close (h : Closes cat m s) (h' : ∀ a s₁, Proceeds cat (f a) s₁) :
    Finishes cat (m >>= f) s := by
  intro b s' hb
  obtain ⟨a, s₁, ha, hb⟩ := Analysis.bind_ok hb
  obtain ⟨t, ht, hlead⟩ := h a s₁ ha
  exact ⟨t, _, ht, hlead, h' a s₁ b s' hb⟩

/-- Behind the mark that opens a block, what finishes it goes through the whole of it. -/
theorem block {t : Token} (ht : t.asksFor .blockOpen) (h : Finishes cat m s) :
    ProceedsFrom cat (s.progress.unread t) m s := by
  intro a s' ha
  obtain ⟨closing, p, hc, hlead, hrest⟩ := h a s' ha
  exact (Leads.block ht hc hlead).trans hrest

end Finishes

end

/-! ## Steps -/

namespace Analysis

variable {α β : Type} {Γ : Setting} {cat : Catalogue} {rec : Recursion} {s : State} {span : Span}

theorem proceeds_reading {r : Reading α}
    (h : ∀ c a d, r c = .ok a d → ∀ p : Progress, (p.seek c).Leads cat (p.seek d)) :
    Proceeds cat (reading r) s := by
  intro a s' ha
  obtain ⟨cursor, hr, rfl⟩ := reading_ok ha
  exact h _ _ _ hr s.progress

theorem proceeds_accept {test : Token → Bool}
    (h : ∀ t, test t → t.string? = none ∧ t.isPlain) :
    Proceeds cat (reading (Reading.accept test)) s := by
  refine proceeds_reading fun c t? d hr p ↦ ?_
  obtain rfl | ⟨t, hadvance, htest⟩ := Reading.accept_ok hr
  · exact .refl _
  · exact .token hadvance (h t htest).1 (.inl (h t htest).2)

theorem proceeds_acceptSymbol {symbol : Symbol} (h : IsNoMark symbol) :
    Proceeds cat (reading (Reading.acceptSymbol symbol)) s := by
  refine proceeds_accept fun t ht ↦ ?_
  have hs := beq_iff_eq.mp ht
  exact ⟨Token.string?_of_identifier? hs, Token.isPlain_of_identifier? hs h.1 h.2⟩

theorem proceeds_accepts {construct : Construct} (ho : construct ≠ .blockOpen)
    (hc : construct ≠ .blockClose) : Proceeds cat (accepts construct) s := by
  rw [accepts, map_eq_pure_bind]
  refine ProceedsFrom.bind (proceeds_accept fun t ht ↦ ?_) fun _ _ _ ↦ .pure _
  exact ⟨Token.string?_of_identifier? (Token.identifier?_of_asksFor ht),
    Token.isPlain_of_asksFor ht ho hc⟩

theorem proceeds_acceptReference : Proceeds cat (reading Reading.acceptReference) s := by
  refine proceeds_reading fun c x? d hr p ↦ ?_
  obtain rfl | ⟨t, x, hadvance, hx⟩ := Reading.acceptReference_ok hr
  · exact .refl _
  · have hcategory : t.lexeme.category = .reference := by
      unfold Token.reference? at hx
      split at hx
      · next hl =>
        rw [hl]
        rfl
      · cases hx
    exact .token hadvance (Token.string?_of_category (by rw [hcategory]; decide))
      (.inl (Token.isPlain_of_category (by rw [hcategory]; decide)))

theorem proceeds_expect {category : Category} (hs : category ≠ .string)
    (hi : category ≠ .identifier) : Proceeds cat (reading (Reading.expect category)) s := by
  refine proceeds_reading fun c t d hr p ↦ ?_
  obtain ⟨hadvance, hcategory⟩ := Reading.expect_ok hr
  exact .token hadvance (Token.string?_of_category (hcategory ▸ hs))
    (.inl (Token.isPlain_of_category (hcategory ▸ hi)))

theorem proceeds_variableName : Proceeds cat variableName s := by
  refine proceeds_reading fun c x d hr p ↦ ?_
  obtain ⟨t, d', hexpect, hr⟩ := Reading.bind_ok hr
  obtain ⟨hadvance, hcategory⟩ := Reading.expect_ok hexpect
  obtain rfl : d' = d := by
    cases hx : t.reference? with
    | none =>
      rw [hx] at hr
      cases hr
    | some x =>
      rw [hx] at hr
      cases hr
      rfl
  exact .token hadvance (Token.string?_of_category (by rw [hcategory]; decide))
    (.inl (Token.isPlain_of_category (by rw [hcategory]; decide)))

theorem proceeds_annotated {dynamism : Dynamism} :
    Proceeds Γ.catalogue ( annotation Γ dynamism) s :=
  proceeds_reading fun _ ⟨_, _⟩ _ hr _ ↦ .of_annotated hr

/-! ### Writing and resting -/

theorem rests_modify {f : State → State} (h : (f s).progress = s.progress) :
    Rests (modify f : Analysis Unit) s := by
  rintro _ _ ⟨⟩
  exact h

theorem rests_frame : Rests frame s := .bind rests_get fun _ _ ↦ .pure _

theorem proceeds_frame : Proceeds cat frame s := .rests rests_frame

theorem proceeds_here : Proceeds cat here s := proceeds_get.bind fun _ _ _ ↦ .pure _

theorem proceeds_resolve? {x : String} : Proceeds cat (resolve? x) s :=
  proceeds_get.bind fun _ _ _ ↦ .pure _

theorem proceeds_modifyFrame {f : Frame → Frame} : Proceeds cat (modifyFrame f) s :=
  .rests (rests_modify rfl)

theorem proceeds_modifyEnvironment {f : Environment → Environment} :
    Proceeds cat (modifyEnvironment f) s := .rests (rests_modify rfl)

theorem rests_warn {remark : Remark} : Rests (warn remark span) s := rests_modify rfl

theorem proceeds_warn {remark : Remark} : Proceeds cat (warn remark span) s := .rests rests_warn

theorem proceeds_useSelf : Proceeds cat useSelf s := proceeds_modifyFrame

theorem proceeds_fail {cause : Cause} {p : Progress} :
    ProceedsFrom cat p (fail cause span : Analysis α) s := .throw

theorem rests_require {condition : Bool} {cause : Cause} :
    Rests (require condition cause span) s := .ite (.pure ()) fun _ _ h ↦ nomatch h

theorem proceeds_require {condition : Bool} {cause : Cause} :
    Proceeds cat (require condition cause span) s := .rests rests_require

theorem proceeds_demand {value? : Option α} {cause : Cause} :
    Proceeds cat (demand value? cause span) s := by
  cases value? with
  | some a => exact .pure a
  | none => exact proceeds_fail

theorem proceeds_lift {x : Except Fault α} : Proceeds cat (lift x) s := by
  cases x with
  | ok a => exact .pure a
  | error fault => exact .throw

theorem proceeds_declare {v : Variable} : Proceeds cat (declare v) s := by
  intro _ s' h
  unfold declare at h
  split at h <;> cases h
  exact .refl _

theorem proceeds_assemble {f : Assembler → Assembler} (h : s.assembler.Edit (f s.assembler)) :
    Proceeds cat (assemble f) s := by
  rintro _ _ ⟨⟩
  exact .edit h

theorem proceeds_emit {op : Opcode} (h : op ≠ .string) : Proceeds cat (emit op) s :=
  proceeds_assemble (Assembler.edit_opcode h)

theorem proceeds_emitWord {w : UInt32} : Proceeds cat (emitWord w) s :=
  proceeds_assemble (Assembler.edit_word w)

theorem proceeds_emitNumber {n : Nat} : Proceeds cat (emitNumber n) s := proceeds_emitWord

theorem proceeds_emitWide {value : UInt64} : Proceeds cat (emitWide value) s := by
  rintro _ _ ⟨⟩
  exact (Leads.edit (Assembler.edit_word (Chunk.highWord value))).trans
    (.edit (Assembler.edit_word (Chunk.lowWord value)))

theorem proceeds_reserve : Proceeds cat reserve s := by
  rintro _ _ ⟨⟩
  exact .edit Assembler.edit_appendHole

theorem proceeds_reserveCount : Proceeds cat reserveCount s := by
  rintro _ _ ⟨⟩
  exact .edit Assembler.edit_appendHole

theorem proceeds_filling {f : Assembler → Option Assembler}
    (h : ∀ a, f s.assembler = some a → s.assembler.Edit a) : Proceeds cat (filling f) s := by
  intro _ s' hf
  obtain ⟨a, ha, rfl⟩ := filling_ok hf
  exact .edit (h a ha)

theorem proceeds_fill {hole : Hole} {w : UInt32} : Proceeds cat (fill hole w) s :=
  proceeds_filling fun _ ↦ Assembler.edit_patch

theorem proceeds_fillCount {hole : CountHole} : Proceeds cat (fillCount hole) s :=
  proceeds_filling fun _ ↦ Assembler.edit_patch

theorem proceeds_fillOpcode {hole : Hole} {op : Opcode} (h : op ≠ .string) :
    Proceeds cat (fillOpcode hole op) s := proceeds_filling fun _ ↦ Assembler.edit_fillOpcode? h

theorem proceeds_requireUndeclared {x : String} : Proceeds cat (requireUndeclared x span) s :=
  proceeds_get.bind fun _ _ _ ↦ proceeds_require

theorem rests_requireComplete : Rests (requireComplete Γ span) s := by
  intro _ s' h
  rw [(requireComplete_ok h).1]

theorem proceeds_requireComplete : Proceeds cat (requireComplete Γ span) s :=
  .rests rests_requireComplete

theorem proceeds_newSlot : Proceeds cat (newSlot Γ span) s :=
  proceeds_frame.bind fun _ _ _ ↦ proceeds_require.bind fun _ _ _ ↦
    proceeds_modifyFrame.bind fun _ _ _ ↦ .pure _

theorem proceeds_emitAccess {storage : Storage} {action : Access} {slot : Nat} :
    Proceeds cat (emitAccess storage action slot) s := by
  refine (proceeds_emit (by nofun)).bind fun _ _ _ ↦ .ite ?_ proceeds_emitNumber
  exact proceeds_useSelf.bind fun _ _ _ ↦ proceeds_emitNumber

/-! ## Operands, arguments and statements -/

variable {t : Token}

theorem proceeds_operand (hrec : rec.Proceeds) : Proceeds Γ.catalogue (operand Γ rec) s :=
  .next fun _ _ ↦ hrec _ _ _ _

theorem proceeds_operandAndSpan (hrec : rec.Proceeds) :
    Proceeds Γ.catalogue (operandAndSpan Γ rec) s :=
  .next fun _ _ ↦ (hrec _ _ _ _).bind fun _ _ _ ↦ .pure _

theorem proceeds_fitting (hrec : rec.Proceeds) {expected : Ty} :
    ProceedsFrom Γ.catalogue (s.progress.unread t) (fitting Γ rec t expected) s :=
  (hrec _ _ _ _).bind fun _ _ _ ↦ proceeds_require.bind fun _ _ _ ↦ .pure _

theorem proceeds_operandFitting (hrec : rec.Proceeds) {expected : Ty} :
    Proceeds Γ.catalogue (operandFitting Γ rec expected) s :=
  .next fun _ _ ↦ proceeds_fitting hrec

theorem proceeds_operandsFitting (hrec : rec.Proceeds) {expected : List Ty} :
    Proceeds Γ.catalogue (operandsFitting Γ rec expected) s := by
  induction expected generalizing s with
  | nil => exact .pure ()
  | cons t expected ih => exact (proceeds_operandFitting hrec).bind fun _ _ _ ↦ ih

theorem proceeds_arguments (hrec : rec.Proceeds) {expected : List Ty} :
    Proceeds Γ.catalogue (arguments Γ rec expected) s := by
  refine ProceedsFrom.bind (proceeds_accept fun t ht ↦ ?_) fun bracketed _ _ ↦ ?_
  · have hl : t.lexeme = .argumentsOpen := beq_iff_eq.mp ht
    exact ⟨Token.string?_of_category (by rw [hl]; decide),
      Token.isPlain_of_category (by rw [hl]; decide)⟩
  · refine (proceeds_operandsFitting hrec).bind fun _ _ _ ↦ .ite ?_ (.pure ())
    exact (proceeds_expect (by nofun) (by nofun)).bind fun _ _ _ ↦ .pure ()

theorem proceeds_callMember (hrec : rec.Proceeds) {m : Member} {receiver : Ty} :
    Proceeds Γ.catalogue (callMember Γ rec m receiver span) s :=
  proceeds_require.bind fun _ _ _ ↦ (proceeds_arguments hrec).bind fun _ _ _ ↦ .pure _

theorem proceeds_statement (hrec : rec.Proceeds) :
    ProceedsFrom Γ.catalogue (s.progress.unread t) (statement Γ rec t) s := by
  refine .behind (rests_modify rfl) fun _ _ _ ↦ (hrec _ _ _ _).bind fun _ _ _ ↦ ?_
  exact proceeds_frame.bind fun _ _ _ ↦ .ite proceeds_warn (.pure ())

/-! ## Values -/

/-- A string literal proceeds from its token. -/
theorem proceeds_stringLiteral {content : String} (ht : t.string? = some content) :
    ProceedsFrom cat (s.progress.unread t) (stringLiteral content) s := by
  rintro _ _ ⟨⟩
  exact .literal ht

theorem proceeds_booleanLiteral {value : Bool} : Proceeds cat (booleanLiteral value) s :=
  (proceeds_emit (by nofun)).bind fun _ _ _ ↦ .pure _

theorem proceeds_integerLiteral {value : Int64} : Proceeds cat (integerLiteral value) s := by
  refine .ite ?_ ?_
  · exact (proceeds_emit (by nofun)).bind fun _ _ _ ↦ proceeds_emitWide.bind fun _ _ _ ↦ .pure _
  · exact (proceeds_emit (by nofun)).bind fun _ _ _ ↦ proceeds_emitWord.bind fun _ _ _ ↦ .pure _

theorem proceeds_doubleLiteral {bits : UInt64} : Proceeds cat (doubleLiteral bits) s :=
  (proceeds_emit (by nofun)).bind fun _ _ _ ↦ proceeds_emitWide.bind fun _ _ _ ↦ .pure _

theorem proceeds_symbolLiteral {value : Symbol} : Proceeds cat (symbolLiteral value) s :=
  (proceeds_emit (by nofun)).bind fun _ _ _ ↦ proceeds_emitWord.bind fun _ _ _ ↦ .pure _

theorem proceeds_nothingnessLiteral : Proceeds cat nothingnessLiteral s :=
  (proceeds_emit (by nofun)).bind fun _ _ _ ↦ .pure _

theorem proceeds_selfReference : Proceeds cat (selfReference Γ span) s := by
  refine proceeds_require.bind fun _ _ _ ↦ proceeds_frame.bind fun _ _ _ ↦ ?_
  refine proceeds_require.bind fun _ _ _ ↦ proceeds_requireComplete.bind fun _ _ _ ↦ ?_
  exact proceeds_useSelf.bind fun _ _ _ ↦ (proceeds_emit (by nofun)).bind fun _ _ _ ↦ .pure _

theorem proceeds_emitEnumNumber {opcode : Hole} {number : UInt64} :
    Proceeds cat (emitEnumNumber opcode number) s := by
  refine .ite ?_ ?_
  · exact (proceeds_fillOpcode (by nofun)).bind fun _ _ _ ↦ proceeds_emitWord
  · exact (proceeds_fillOpcode (by nofun)).bind fun _ _ _ ↦ proceeds_emitWide

theorem proceeds_enumValue : Proceeds Γ.catalogue (enumValue Γ span) s := by
  refine proceeds_reserve.bind fun opcode _ _ ↦ proceeds_annotated.bind fun ⟨t, _⟩ _ _ ↦ ?_
  refine proceeds_require.bind fun _ _ _ ↦ proceeds_require.bind fun _ _ _ ↦ ?_
  refine .name (fun _ _ ↦ .demand fun _ h ↦ .value h) fun _ _ ↦ ?_
  exact proceeds_demand.bind fun _ _ _ ↦ proceeds_emitEnumNumber.bind fun _ _ _ ↦ .pure _

theorem proceeds_isNothingness (hrec : rec.Proceeds) :
    Proceeds Γ.catalogue (isNothingness Γ rec) s :=
  (proceeds_emit (by nofun)).bind fun _ _ _ ↦ (proceeds_operand hrec).bind fun _ _ _ ↦ .pure _

theorem proceeds_identical (hrec : rec.Proceeds) : Proceeds Γ.catalogue (identical Γ rec) s :=
  (proceeds_emit (by nofun)).bind fun _ _ _ ↦ (proceeds_operandFitting hrec).bind fun _ _ _ ↦
    (proceeds_operandFitting hrec).bind fun _ _ _ ↦ .pure _

/-! ## Strings and collections -/

/-- The mark at the end of a list of operands is no block. -/
theorem proceeds_atEnd {c : Construct} (hc : t.asksFor c) (ho : c ≠ .blockOpen)
    (hclose : c ≠ .blockClose) (a : α) :
    ProceedsFrom cat (s.progress.unread t) (pure a : Analysis α) s :=
  .plain (Token.string?_of_identifier? (Token.identifier?_of_asksFor hc))
    (Token.isPlain_of_asksFor hc ho hclose) (.pure a)

theorem proceeds_concatenate (hrec : rec.Proceeds) :
    Proceeds Γ.catalogue (concatenate Γ rec) s := by
  refine (proceeds_emit (by nofun)).bind fun _ _ _ ↦ proceeds_reserve.bind fun count _ _ ↦ ?_
  refine (proceeds_operandFitting hrec).bind fun _ _ _ ↦ ?_
  refine ProceedsFrom.bind (.repeatUntil (fun strings s ↦ .next fun t s ↦ ?_) 1)
    fun strings _ _ ↦ proceeds_fill.bind fun _ _ _ ↦ .pure _
  split
  · next ht => exact proceeds_atEnd ht (by nofun) (by nofun) _
  · exact (proceeds_fitting hrec).bind fun _ _ _ ↦ .pure _

theorem proceeds_emptyElement {id : TypeId} {hint : Option Ty} :
    Proceeds cat (emptyElement id hint span) s := by
  unfold emptyElement
  cases (hint.filter (·.objectId? == some id)).bind (·.arguments.head?) with
  | some element => exact .pure _
  | none => exact proceeds_warn.bind fun _ _ _ ↦ .pure _

theorem proceeds_collection {opcode : Opcode} {id : TypeId} {part : Token → Analysis Ty}
    {hint : Option Ty} (hop : opcode ≠ .string)
    (hpart : ∀ t s, ProceedsFrom cat (s.progress.unread t) (part t) s) :
    Proceeds cat (collection Γ opcode id part hint span) s := by
  refine (proceeds_emit hop).bind fun _ _ _ ↦ proceeds_reserveCount.bind fun count _ _ ↦ ?_
  refine ProceedsFrom.bind (.repeatUntil (fun common? s ↦ .next fun t s ↦ ?_) none)
    fun common? _ _ ↦ proceeds_fillCount.bind fun _ _ _ ↦ ?_
  · split
    · next ht => exact proceeds_atEnd ht (by nofun) (by nofun) _
    · exact (hpart t _).bind fun _ _ _ ↦ .pure _
  · cases common? with
    | some element => exact (ProceedsFrom.pure element).bind fun _ _ _ ↦ .pure _
    | none => exact proceeds_emptyElement.bind fun _ _ _ ↦ .pure _

theorem proceeds_list (hrec : rec.Proceeds) {hint : Option Ty} :
    Proceeds Γ.catalogue (list Γ rec hint span) s :=
  proceeds_collection (by nofun) fun _ _ ↦ hrec _ _ _ _

theorem proceeds_dictionary (hrec : rec.Proceeds) {hint : Option Ty} :
    Proceeds Γ.catalogue (dictionary Γ rec hint span) s :=
  proceeds_collection (by nofun) fun _ _ ↦ (proceeds_fitting hrec).bind fun _ _ _ ↦
    proceeds_operand hrec

/-! ## Conversions -/

theorem proceeds_cast (hrec : rec.Proceeds) : Proceeds Γ.catalogue (cast Γ rec span) s := by
  refine proceeds_reserve.bind fun opcode _ _ ↦ ?_
  refine (proceeds_operandFitting hrec).bind fun found _ _ ↦ ?_
  refine proceeds_annotated.bind fun ⟨target, _⟩ _ _ ↦ .optional proceeds_warn fun _ ↦ ?_
  dsimp only
  generalize target.kind = kind
  cases kind with
  | object id =>
    refine proceeds_demand.bind fun _ _ _ ↦ proceeds_require.bind fun _ _ _ ↦ ?_
    refine (proceeds_fillOpcode (by nofun)).bind fun _ _ _ ↦ ?_
    exact proceeds_emitNumber.bind fun _ _ _ ↦ .pure _
  | protocol id =>
    refine proceeds_demand.bind fun _ _ _ ↦ (proceeds_fillOpcode (by nofun)).bind fun _ _ _ ↦ ?_
    exact proceeds_emitNumber.bind fun _ _ _ ↦ .pure _
  | boolean | integer | symbol | double =>
    exact (proceeds_fillOpcode (by nofun)).bind fun _ _ _ ↦ .pure _
  | _ => exact ProceedsFrom.bind proceeds_fail fun _ _ _ ↦ .pure _

theorem proceeds_unwrap (hrec : rec.Proceeds) : Proceeds Γ.catalogue (unwrap Γ rec span) s :=
  (proceeds_emit (by nofun)).bind fun _ _ _ ↦ (proceeds_operand hrec).bind fun _ _ _ ↦
    proceeds_require.bind fun _ _ _ ↦ .pure _

/-! ## Calls and instances -/

theorem proceeds_call (hrec : rec.Proceeds) {method : Symbol} :
    Proceeds Γ.catalogue (call Γ rec method span) s := by
  refine proceeds_reserve.bind fun opcode _ _ ↦ ?_
  refine (proceeds_operandAndSpan hrec).bind fun ⟨receiver, _⟩ _ _ ↦ ?_
  refine proceeds_require.bind fun _ _ _ ↦ ?_
  dsimp only
  generalize (dispatchType Γ receiver).kind = kind
  cases kind with
  | protocol id =>
    refine proceeds_demand.bind fun _ _ _ ↦ proceeds_demand.bind fun _ _ _ ↦ ?_
    refine (proceeds_fillOpcode (by nofun)).bind fun _ _ _ ↦ proceeds_emitNumber.bind fun _ _ _ ↦ ?_
    exact proceeds_emitNumber.bind fun _ _ _ ↦ proceeds_callMember hrec
  | object id =>
    refine proceeds_demand.bind fun _ _ _ ↦ (proceeds_fillOpcode (by nofun)).bind fun _ _ _ ↦ ?_
    exact proceeds_emitNumber.bind fun _ _ _ ↦ proceeds_callMember hrec
  | _ =>
    refine proceeds_demand.bind fun operation _ _ ↦ ?_
    refine (proceeds_fillOpcode (by nofun)).bind fun _ _ _ ↦ ?_
    cases operation.operand? with
    | some t => exact (proceeds_operandFitting hrec).bind fun _ _ _ ↦ .pure _
    | none => exact .pure _

theorem finds_of_objectMethod? {receiver : Ty} {method : Symbol} {m : Member}
    (h : objectMethod? Γ receiver method = some m) : Γ.catalogue.Finds method := by
  unfold objectMethod? at h
  split at h
  · exact .method h
  · cases h

theorem proceeds_optionalChain (hrec : rec.Proceeds) :
    Proceeds Γ.catalogue (optionalChain Γ rec span) s := by
  refine (proceeds_emit (by nofun)).bind fun _ _ _ ↦ proceeds_reserveCount.bind fun count _ _ ↦ ?_
  refine .name (fun _ _ ↦ .behind fun _ _ ↦ .behind fun _ _ ↦ .demand fun _ h ↦ ?_) fun _ _ ↦ ?_
  · exact finds_of_objectMethod? h
  refine (proceeds_operand hrec).bind fun t _ _ ↦ proceeds_require.bind fun _ _ _ ↦ ?_
  refine proceeds_demand.bind fun _ _ _ ↦ proceeds_emitNumber.bind fun _ _ _ ↦ ?_
  refine proceeds_fillCount.bind fun _ _ _ ↦ ?_
  exact (proceeds_callMember hrec).bind fun _ _ _ ↦ .pure _

theorem proceeds_callClassMethod (hrec : rec.Proceeds) :
    Proceeds Γ.catalogue (callClassMethod Γ rec) s := by
  refine (proceeds_emit (by nofun)).bind fun _ _ _ ↦ .name (fun x _ ↦ .behind fun a _ ↦ ?_)
    fun _ _ ↦ ?_
  · exact .optional fun _ ↦ .behind fun _ _ ↦ .behind fun _ _ ↦
      .demand fun _ h ↦ .classMethod h
  refine proceeds_annotated.bind fun ⟨annotated, dynamic⟩ _ _ ↦ .optional proceeds_warn fun _ ↦ ?_
  refine proceeds_demand.bind fun _ _ _ ↦ proceeds_emitWord.bind fun _ _ _ ↦ ?_
  refine proceeds_demand.bind fun _ _ _ ↦ proceeds_emitNumber.bind fun _ _ _ ↦ ?_
  exact proceeds_callMember hrec

theorem proceeds_callSuperMethod (hrec : rec.Proceeds) :
    Proceeds Γ.catalogue (callSuperMethod Γ rec span) s := by
  refine .name (fun _ _ ↦ .behind fun _ _ ↦ .behind fun _ _ ↦ .behind fun _ _ ↦ .behind fun _ _ ↦
    .demand fun _ h ↦ .method h) fun _ _ ↦ ?_
  refine proceeds_require.bind fun _ _ _ ↦ proceeds_demand.bind fun _ _ _ ↦ ?_
  refine (proceeds_emit (by nofun)).bind fun _ _ _ ↦ proceeds_emitNumber.bind fun _ _ _ ↦ ?_
  refine proceeds_demand.bind fun _ _ _ ↦ proceeds_emitNumber.bind fun _ _ _ ↦ ?_
  exact proceeds_useSelf.bind fun _ _ _ ↦ proceeds_callMember hrec

theorem proceeds_captureMethod (hrec : rec.Proceeds) :
    Proceeds Γ.catalogue (captureMethod Γ rec) s := by
  refine .name (fun _ _ ↦ .behind fun _ _ ↦ .behind fun _ _ ↦ .behind fun _ _ ↦
    .demand fun _ h ↦ finds_of_objectMethod? h) fun _ _ ↦ ?_
  refine (proceeds_emit (by nofun)).bind fun _ _ _ ↦ ?_
  refine (proceeds_operandAndSpan hrec).bind fun ⟨receiver, _⟩ _ _ ↦ ?_
  refine proceeds_require.bind fun _ _ _ ↦ proceeds_demand.bind fun _ _ _ ↦ ?_
  exact proceeds_emitNumber.bind fun _ _ _ ↦ proceeds_require.bind fun _ _ _ ↦ .pure _

theorem proceeds_invoke (hrec : rec.Proceeds) : Proceeds Γ.catalogue (invoke Γ rec) s := by
  refine (proceeds_emit (by nofun)).bind fun _ _ _ ↦ ?_
  refine (proceeds_operandAndSpan hrec).bind fun ⟨t, _⟩ _ _ ↦ proceeds_require.bind fun _ _ _ ↦ ?_
  exact (proceeds_arguments hrec).bind fun _ _ _ ↦ .pure _

theorem proceeds_instantiate (hrec : rec.Proceeds) :
    Proceeds Γ.catalogue (instantiate Γ rec span) s := by
  refine (proceeds_emit (by nofun)).bind fun _ _ _ ↦ ?_
  refine proceeds_annotated.bind fun ⟨t, dynamic⟩ _ _ ↦ proceeds_demand.bind fun _ _ _ ↦ ?_
  refine proceeds_require.bind fun _ _ _ ↦ proceeds_emitWord.bind fun _ _ _ ↦ ?_
  refine .name (fun _ _ ↦ .demand fun _ h ↦ .initializer h) fun _ _ ↦ ?_
  refine proceeds_demand.bind fun _ _ _ ↦ proceeds_require.bind fun _ _ _ ↦ ?_
  refine proceeds_emitNumber.bind fun _ _ _ ↦ proceeds_require.bind fun _ _ _ ↦ ?_
  exact (proceeds_arguments hrec).bind fun _ _ _ ↦ .pure _

theorem proceeds_superInitializer (hrec : rec.Proceeds) :
    Proceeds Γ.catalogue (superInitializer Γ rec span) s := by
  refine proceeds_require.bind fun _ _ _ ↦ proceeds_demand.bind fun _ _ _ ↦ ?_
  refine proceeds_frame.bind fun _ _ _ ↦ proceeds_require.bind fun _ _ _ ↦ ?_
  refine proceeds_frame.bind fun _ _ _ ↦ proceeds_require.bind fun _ _ _ ↦ ?_
  refine proceeds_requireComplete.bind fun _ _ _ ↦ (proceeds_emit (by nofun)).bind fun _ _ _ ↦ ?_
  refine proceeds_emitNumber.bind fun _ _ _ ↦ ?_
  refine .name (fun _ _ ↦ .demand fun _ h ↦ .initializer h) fun _ _ ↦ ?_
  refine proceeds_demand.bind fun _ _ _ ↦ proceeds_emitNumber.bind fun _ _ _ ↦ ?_
  refine proceeds_require.bind fun _ _ _ ↦ (proceeds_arguments hrec).bind fun _ _ _ ↦ ?_
  exact proceeds_modifyFrame.bind fun _ _ _ ↦ .pure _

theorem proceeds_returnValue (hrec : rec.Proceeds) :
    Proceeds Γ.catalogue (returnValue Γ rec span) s := by
  refine proceeds_frame.bind fun _ _ _ ↦ proceeds_require.bind fun _ _ _ ↦ ?_
  refine proceeds_modifyFrame.bind fun _ _ _ ↦ ?_
  cases Γ.initializer? with
  | some initializer =>
    refine proceeds_require.bind fun _ _ _ ↦ (proceeds_emit (by nofun)).bind fun _ _ _ ↦ ?_
    exact (proceeds_operandFitting hrec).bind fun _ _ _ ↦ .pure _
  | none =>
    refine proceeds_require.bind fun _ _ _ ↦ (proceeds_emit (by nofun)).bind fun _ _ _ ↦ ?_
    refine (proceeds_operandFitting hrec).bind fun _ _ _ ↦ ?_
    exact proceeds_modifyFrame.bind fun _ _ _ ↦ .pure _

/-! ## Variables -/

theorem proceeds_readVariable {x : String} : Proceeds cat (readVariable x span) s :=
  proceeds_resolve?.bind fun _ _ _ ↦ proceeds_demand.bind fun ⟨_, _⟩ _ _ ↦
    proceeds_lift.bind fun _ _ _ ↦ proceeds_emitAccess.bind fun _ _ _ ↦ .pure _

theorem proceeds_declareVariable : Proceeds Γ.catalogue (declareVariable Γ) s := by
  refine proceeds_variableName.bind fun ⟨x, span⟩ _ _ ↦ ?_
  refine proceeds_requireUndeclared.bind fun _ _ _ ↦ proceeds_annotated.bind fun ⟨type, _⟩ _ _ ↦ ?_
  exact proceeds_newSlot.bind fun _ _ _ ↦ proceeds_declare.bind fun _ _ _ ↦ .pure _

theorem proceeds_storeNew (hrec : rec.Proceeds) {x : String} :
    Proceeds Γ.catalogue (storeNew Γ rec x span) s := by
  refine (proceeds_emit (by nofun)).bind fun _ _ _ ↦ proceeds_newSlot.bind fun _ _ _ ↦ ?_
  exact proceeds_emitNumber.bind fun _ _ _ ↦ (proceeds_operand hrec).bind fun _ _ _ ↦ .pure _

theorem proceeds_declareFrozen (hrec : rec.Proceeds) :
    Proceeds Γ.catalogue (declareFrozen Γ rec) s := by
  refine proceeds_variableName.bind fun ⟨x, span⟩ _ _ ↦ ?_
  refine proceeds_requireUndeclared.bind fun _ _ _ ↦ (proceeds_storeNew hrec).bind fun _ _ _ ↦ ?_
  exact proceeds_declare.bind fun _ _ _ ↦ .pure _

theorem proceeds_assign (hrec : rec.Proceeds) : Proceeds Γ.catalogue (assign Γ rec) s := by
  refine proceeds_variableName.bind fun ⟨x, span⟩ _ _ ↦ proceeds_resolve?.bind fun found? _ _ ↦ ?_
  cases found? with
  | none =>
    exact (proceeds_storeNew hrec).bind fun _ _ _ ↦ proceeds_declare.bind fun _ _ _ ↦ .pure _
  | some found =>
    refine proceeds_lift.bind fun _ _ _ ↦ proceeds_modifyEnvironment.bind fun _ _ _ ↦ ?_
    refine proceeds_emitAccess.bind fun _ _ _ ↦ (proceeds_operandFitting hrec).bind fun _ _ _ ↦ ?_
    exact proceeds_modifyEnvironment.bind fun _ _ _ ↦ .pure _

theorem proceeds_stepVariable {construct : Construct} {action : Access} :
    Proceeds Γ.catalogue (stepVariable Γ construct action) s := by
  refine proceeds_variableName.bind fun ⟨x, span⟩ _ _ ↦ proceeds_resolve?.bind fun _ _ _ ↦ ?_
  refine proceeds_demand.bind fun ⟨_, _⟩ _ _ ↦ proceeds_lift.bind fun _ _ _ ↦ ?_
  refine proceeds_require.bind fun _ _ _ ↦ proceeds_lift.bind fun _ _ _ ↦ ?_
  refine proceeds_modifyEnvironment.bind fun _ _ _ ↦ ?_
  exact proceeds_emitAccess.bind fun _ _ _ ↦ .pure _

/-! ## Blocks and branches -/

/-- The statements of a block end behind its mark. -/
theorem closes_statements (hrec : rec.Proceeds) : Closes Γ.catalogue (statements Γ rec) s := by
  refine .repeatUntil (fun _ t s x s' h ↦ ?_) ()
  obtain ⟨_, s₁, hs, h⟩ := bind_ok h
  cases h
  exact ⟨rfl, proceeds_statement hrec _ _ hs⟩

theorem proceeds_enterConditional {withFields : Bool} :
    Proceeds cat (enterConditional withFields) s :=
  proceeds_get.bind fun _ _ _ ↦
    .ite (ProceedsFrom.bind .throw fun _ _ _ ↦ proceeds_modifyEnvironment)
      proceeds_modifyEnvironment

/-- The mark that opens a block is read for what finishes the block. -/
theorem proceeds_block {construct : Symbol} {f : Token → Analysis α}
    (h : ∀ t s, Finishes cat (f t) s) :
    Proceeds cat (reading (Reading.expectConstruct .blockOpen construct) >>= f) s := by
  intro a s' ha
  obtain ⟨t, s₁, ht, ha⟩ := bind_ok ha
  obtain ⟨cursor, hr, rfl⟩ := reading_ok ht
  obtain ⟨opening, hadvance, hopening⟩ := Reading.expectConstruct_ok hr
  rw [show s.progress = ({ s with cursor } : State).progress.unread opening from
    seek_of_advance (p := s.progress) hadvance]
  exact (h t _).block (Token.asksFor_of_identifier? (by decide) hopening) a s' ha

theorem proceeds_conditionalBlock (hrec : rec.Proceeds) :
    Proceeds Γ.catalogue (conditionalBlock Γ rec) s := by
  refine proceeds_enterConditional.bind fun _ _ _ ↦ proceeds_modifyFrame.bind fun _ _ _ ↦ ?_
  refine proceeds_block fun _ _ ↦ .bind proceeds_reserveCount fun count _ ↦ ?_
  refine .close (closes_statements hrec) fun _ _ ↦ proceeds_fillCount.bind fun _ _ _ ↦ ?_
  refine proceeds_get.bind fun _ _ _ ↦ proceeds_modifyEnvironment.bind fun _ _ _ ↦ ?_
  exact proceeds_modifyFrame.bind fun _ _ _ ↦ .pure _

theorem rests_recommendFrozen {candidates : List Variable} :
    Rests (recommendFrozen Γ candidates) s := by
  refine .ite ?_ (.pure ())
  induction candidates generalizing s with
  | nil => exact .pure ()
  | cons v candidates ih => exact .bind rests_warn fun _ _ ↦ ih

theorem proceeds_inScope {m : Analysis α} (h : ∀ s, Proceeds Γ.catalogue m s) :
    Proceeds Γ.catalogue (inScope Γ m) s := by
  refine proceeds_modifyEnvironment.bind fun _ _ _ ↦ (h _).bind fun value s₁ _ ↦ ?_
  refine proceeds_get.bind fun s₂ _ _ ↦ ?_
  cases s₂.environment.pop? with
  | none => exact .pure _
  | some popped =>
    refine proceeds_modifyEnvironment.bind fun _ _ _ ↦ ?_
    exact (ProceedsFrom.rests rests_recommendFrozen).bind fun _ _ _ ↦ .pure _

theorem proceeds_condition (hrec : rec.Proceeds) : Proceeds Γ.catalogue (condition Γ rec) s := by
  refine (proceeds_accepts (by nofun) (by nofun)).bind fun _ _ _ ↦ .ite ?_ ?_
  · refine proceeds_variableName.bind fun ⟨x, span⟩ _ _ ↦ ?_
    refine proceeds_requireUndeclared.bind fun _ _ _ ↦ ?_
    refine (proceeds_emit (by nofun)).bind fun _ _ _ ↦ proceeds_newSlot.bind fun _ _ _ ↦ ?_
    refine proceeds_emitNumber.bind fun _ _ _ ↦ ?_
    refine proceeds_here.bind fun _ _ _ ↦ (proceeds_operand hrec).bind fun _ _ _ ↦ ?_
    exact proceeds_require.bind fun _ _ _ ↦ proceeds_declare
  · exact (proceeds_operandFitting hrec).bind fun _ _ _ ↦ .pure ()

theorem proceeds_branch (hrec : rec.Proceeds) : Proceeds Γ.catalogue (branch Γ rec) s :=
  proceeds_inScope fun _ ↦ (proceeds_condition hrec).bind fun _ _ _ ↦
    proceeds_conditionalBlock hrec

theorem proceeds_ifChain (hrec : rec.Proceeds) : Proceeds Γ.catalogue (ifChain Γ rec) s := by
  refine (proceeds_emit (by nofun)).bind fun _ _ _ ↦ proceeds_reserveCount.bind fun count _ _ ↦ ?_
  refine (proceeds_branch hrec).bind fun first _ _ ↦ ?_
  refine ProceedsFrom.bind (.repeatUntil (fun branches s ↦ ?_) [first]) fun conditional _ _ ↦ ?_
  · refine (proceeds_accepts (by nofun) (by nofun)).bind fun _ _ _ ↦ .ite ?_ (.pure _)
    exact (proceeds_emit (by nofun)).bind fun _ _ _ ↦ (proceeds_branch hrec).bind fun _ _ _ ↦
      .pure _
  refine (proceeds_accepts (by nofun) (by nofun)).bind fun _ _ _ ↦ .ite ?_ ?_
  · refine (proceeds_emit (by nofun)).bind fun _ _ _ ↦ ?_
    refine (proceeds_inScope fun _ ↦ proceeds_conditionalBlock hrec).bind fun last _ _ ↦ ?_
    refine proceeds_fillCount.bind fun _ _ _ ↦ ?_
    exact proceeds_modifyEnvironment.bind fun _ _ _ ↦ .pure _
  · exact proceeds_fillCount.bind fun _ _ _ ↦ .pure _

theorem proceeds_repeatWhile (hrec : rec.Proceeds) :
    Proceeds Γ.catalogue (repeatWhile Γ rec) s := by
  refine (proceeds_emit (by nofun)).bind fun _ _ _ ↦ ?_
  refine (proceeds_operandFitting hrec).bind fun _ _ _ ↦ ?_
  exact (proceeds_inScope fun _ ↦ proceeds_conditionalBlock hrec).bind fun _ _ _ ↦ .pure _

theorem proceeds_forIn (hrec : rec.Proceeds) : Proceeds Γ.catalogue (forIn Γ rec span) s := by
  refine proceeds_reserve.bind fun opcode _ _ ↦ proceeds_variableName.bind fun ⟨x, span⟩ _ _ ↦ ?_
  refine ProceedsFrom.bind (proceeds_inScope fun _ ↦ ?_) fun _ _ _ ↦ .pure _
  refine proceeds_newSlot.bind fun _ _ _ ↦ proceeds_emitNumber.bind fun _ _ _ ↦ ?_
  refine proceeds_newSlot.bind fun _ _ _ ↦ proceeds_emitNumber.bind fun _ _ _ ↦ ?_
  refine (proceeds_operandFitting hrec).bind fun t _ _ ↦ proceeds_demand.bind fun _ _ _ ↦ ?_
  refine (proceeds_fillOpcode ?_).bind fun _ _ _ ↦ proceeds_declare.bind fun _ _ _ ↦ ?_
  · nofun
  · exact proceeds_conditionalBlock hrec

/-! ## Bodies -/

theorem proceeds_declareArgument {a : Argument} :
    Proceeds cat (declareArgument Γ span a) s :=
  proceeds_newSlot.bind fun _ _ _ ↦ proceeds_declare

theorem proceeds_takeOver {captured : List Variable} {outerSlots : Nat} :
    Proceeds cat (takeOver Γ span captured outerSlots) s := by
  refine proceeds_frame.bind fun first _ _ ↦ .ite ?_ (.pure _)
  refine ProceedsFrom.bind (.forM fun v _ ↦ ?_) fun _ _ _ ↦
    proceeds_modifyFrame.bind fun _ _ _ ↦ .pure _
  refine proceeds_get.bind fun _ _ _ ↦ .ite ?_ (.pure ())
  exact proceeds_require.bind fun _ _ _ ↦ proceeds_declare

/-- The statements of a body that are still to come end behind its mark, if none of them is left
out. -/
theorem closes_bodyStep (hrec : rec.Proceeds) (hΓ : Γ.options.compilesDeadCode) (fuel : Nat)
    (reported : Bool) : Closes Γ.catalogue (repeating (bodyStep Γ rec) fuel reported) s := by
  refine .repeating (fun reported t s x s' h ↦ ?_) fuel reported
  obtain ⟨_, s₁, hs, h⟩ := bind_ok h
  have hlead := proceeds_statement hrec _ _ hs
  split at h
  · cases h
    exact ⟨rfl, hlead⟩
  obtain ⟨dead?, s₂, hdead, h⟩ := bind_ok h
  obtain ⟨rfl, -⟩ := deadStatement?_ok hdead
  cases dead? with
  | none =>
    cases h
    exact ⟨rfl, hlead⟩
  | some dead =>
    obtain ⟨_, s₂, hwarn, h⟩ := bind_ok h
    cases h
    exact ⟨rfl, hlead.trans (proceeds_warn _ _ hwarn)⟩

theorem rests_leaveBody {firstTaken outerSlots : Nat} :
    Rests (leaveBody Γ firstTaken outerSlots span) s := by
  refine .bind rests_get fun _ _ ↦ .bind rests_recommendFrozen fun _ _ ↦ ?_
  refine .bind rests_frame fun _ _ ↦ .bind rests_require fun _ _ ↦ ?_
  refine .bind rests_requireComplete fun _ _ ↦ .bind rests_frame fun _ _ ↦ ?_
  exact .bind rests_require fun _ _ ↦ .bind rests_frame fun _ _ ↦ .pure _

/-- **A body ends behind its mark**, if no statement of it is left out. -/
theorem closes_body (hrec : rec.Proceeds) (hΓ : Γ.options.compilesDeadCode)
    {arguments : List Argument} {captured : List Variable} {outerSlots : Nat} :
    Closes Γ.catalogue (body Γ rec arguments captured outerSlots) s := by
  refine .bind proceeds_here fun _ _ ↦ .bind (.forM fun _ _ ↦ proceeds_declareArgument) fun _ _ ↦ ?_
  refine .bind proceeds_takeOver fun _ _ ↦ .rests ?_ fun _ _ ↦ rests_leaveBody
  rw [bodyStatements_eq]
  exact .bind proceeds_get fun _ _ ↦ closes_bodyStep hrec hΓ _ _

theorem proceeds_closureArguments : Proceeds Γ.catalogue (closureArguments Γ) s := by
  refine .repeatUntil (fun arguments s ↦ ?_) []
  refine proceeds_acceptReference.bind fun x? _ _ ↦ ?_
  cases x? with
  | none => exact .pure _
  | some x => exact proceeds_annotated.bind fun ⟨type, _⟩ _ _ ↦ .pure _

theorem proceeds_closureResult : Proceeds Γ.catalogue (closureResult Γ) s := by
  refine (proceeds_acceptSymbol (by decide)).bind fun _ _ _ ↦ .ite ?_ (.pure _)
  exact proceeds_annotated.bind fun _ _ _ ↦ .pure _

theorem closes_inFrame {m : Analysis α} (h : ∀ s, Closes cat m s) : Closes cat (inFrame m) s := by
  intro a s' ha
  obtain ⟨outer, s₁, houter, ha⟩ := bind_ok ha
  cases houter
  obtain ⟨_, s₂, hset, ha⟩ := bind_ok ha
  cases hset
  obtain ⟨b, s₃, hb, ha⟩ := bind_ok ha
  obtain ⟨_, s₄, hleave, ha⟩ := bind_ok ha
  cases hleave
  cases ha
  have hclose := h _ a s₃ hb
  exact hclose

/-- A closure is a block. Code behind a return in it is never left out. -/
theorem finishes_closure (hrec : rec.Proceeds) : Finishes Γ.catalogue (closure Γ rec) s := by
  refine .bind proceeds_closureArguments fun arguments _ ↦ ?_
  refine .bind proceeds_closureResult fun result _ ↦ .bind (proceeds_emit (by nofun)) fun _ _ ↦ ?_
  refine .bind proceeds_reserve fun slots _ ↦ .bind proceeds_reserveCount fun count _ ↦ ?_
  refine .bind proceeds_get fun outer _ ↦ .bind proceeds_frame fun f _ ↦ ?_
  refine .close (closes_inFrame fun _ ↦ ?_) fun summary _ ↦ ?_
  · exact closes_body (Γ := { Γ with
      result, initializer? := none, options := Γ.options.withDeadCode true }) hrec rfl
  refine proceeds_fillCount.bind fun _ _ _ ↦ .ite ?_ ?_
  · refine proceeds_useSelf.bind fun _ _ _ ↦ proceeds_emitWord.bind fun _ _ _ ↦ ?_
    exact proceeds_emitNumber.bind fun _ _ _ ↦ proceeds_fill.bind fun _ _ _ ↦ .pure _
  · refine proceeds_emitWord.bind fun _ _ _ ↦ ?_
    exact proceeds_emitNumber.bind fun _ _ _ ↦ proceeds_fill.bind fun _ _ _ ↦ .pure _

/-! ## Expressions -/

theorem proceeds_construct (hrec : rec.Proceeds) {symbol : Symbol} {hint : Option Ty}
    (ht : t.identifier? = some symbol) :
    ProceedsFrom Γ.catalogue (s.progress.unread t) (construct Γ rec t symbol hint) s := by
  by_cases ho : Construct.ofSymbol symbol = .blockOpen
  · rw [construct, ho]
    exact (finishes_closure hrec).block (Token.asksFor_iff.mpr ⟨symbol, ht, ho⟩)
  by_cases hc : Construct.ofSymbol symbol = .blockClose
  · rw [construct, hc]
    exact proceeds_fail
  -- the token of any other construct is no mark of a block
  refine .plain (Token.string?_of_identifier? ht)
    (Token.isPlain_of_asksFor (Token.asksFor_iff.mpr ⟨symbol, ht, rfl⟩) ho hc) ?_
  unfold construct
  generalize Construct.ofSymbol symbol = asked at ho
  cases asked with
  | declare => exact proceeds_declareVariable
  | assign => exact proceeds_assign hrec
  | declareFrozen => exact proceeds_declareFrozen hrec
  | increment | decrement => exact proceeds_stepVariable
  | concatenate => exact proceeds_concatenate hrec
  | list => exact proceeds_list hrec
  | dictionary => exact proceeds_dictionary hrec
  | ifBranch => exact proceeds_ifChain hrec
  | repeatWhile => exact proceeds_repeatWhile hrec
  | forIn => exact proceeds_forIn hrec
  | returning => exact proceeds_returnValue hrec
  | selfReference => exact proceeds_selfReference
  | enumValue => exact proceeds_enumValue
  | instantiate => exact proceeds_instantiate hrec
  | nothingness => exact proceeds_nothingnessLiteral
  | isNothingness => exact proceeds_isNothingness hrec
  | identical => exact proceeds_identical hrec
  | superInitializer => exact proceeds_superInitializer hrec
  | cast => exact proceeds_cast hrec
  | unwrap => exact proceeds_unwrap hrec
  | optionalChain => exact proceeds_optionalChain hrec
  | classMethod => exact proceeds_callClassMethod hrec
  | captureMethod => exact proceeds_captureMethod hrec
  | invoke => exact proceeds_invoke hrec
  | superMethod => exact proceeds_callSuperMethod hrec
  | method method => exact proceeds_call hrec
  | blockOpen => exact absurd rfl ho
  | elseIfBranch | elseBranch | blockClose | collectionEnd | dynamicClass => exact proceeds_fail

theorem proceeds_expressionStep (hrec : rec.Proceeds) : (expressionStep rec).Proceeds := by
  intro Γ token hint s
  have hvalue (category : Category) (hne : category ≠ .string ∧ category ≠ .identifier)
      (hc : token.lexeme.category = category) {m : Analysis Ty} {s : State}
      (h : Proceeds Γ.catalogue m s) :
      ProceedsFrom Γ.catalogue (s.progress.unread token) m s :=
    .plain (Token.string?_of_category (hc ▸ hne.1)) (Token.isPlain_of_category (hc ▸ hne.2)) h
  refine .line fun s ↦ ?_
  cases hl : token.lexeme with
  | string content => exact proceeds_stringLiteral (by rw [Token.string?, hl])
  | boolean value =>
    exact hvalue .boolean (by decide) (congrArg _ hl) proceeds_booleanLiteral
  | integer value =>
    exact hvalue .integer (by decide) (congrArg _ hl) proceeds_integerLiteral
  | double bits => exact hvalue .double (by decide) (congrArg _ hl) proceeds_doubleLiteral
  | symbol value => exact hvalue .symbol (by decide) (congrArg _ hl) proceeds_symbolLiteral
  | reference x => exact hvalue .reference (by decide) (congrArg _ hl) proceeds_readVariable
  | comment _ | argumentsOpen | argumentsClose => exact proceeds_fail
  | identifier symbol =>
    have ht : token.identifier? = some symbol := by rw [Token.identifier?, hl]
    refine .ite (.behind (rests_modify rfl) fun _ _ _ ↦ ?_) (proceeds_construct hrec ht)
    exact proceeds_construct hrec ht

/-- **Every expression proceeds from its first token.** -/
theorem proceeds_expression (fuel : Nat) : (expression fuel).Proceeds := by
  induction fuel with
  | zero => exact fun _ _ _ _ ↦ .throw
  | succ fuel ih => exact proceeds_expressionStep ih

end Analysis

end Pictograph
