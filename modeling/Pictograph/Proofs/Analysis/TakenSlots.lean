import Pictograph.Proofs.Analysis.Expressions
import Pictograph.Proofs.Analysis.Telling

/-!
# The slots that expressions take

A frame hands out its slots one after the other, so the slots that an analysis takes are those
between the number that was handed out in front of it and the number behind it. The expressions that
it asks for take parts of this range, one behind the other, and what is left over it takes itself.
This is one step. The rest is an induction on the levels of nesting, which stops at closures, since
a closure gives back what it took: each slot between the two ends of a body is taken by one
expression of the frame, and only once.

## Main definitions

* `Tells`: an analysis tells the slots that it takes itself.
* `InFrame`: an analysis gets to an expression without entering a closure.
* `Query.taken`: the slots that an expression takes itself.

## Main results

* `Tells.expressionStep`: every expression but a closure tells the slots that it takes itself.
* `InFrame.eq_of_mem_taken`: no slot is taken by two expressions.
* `InFrame.exists_mem_taken`: every slot is taken by an expression.
* `Analysis.shares_bodyStatements`: the statements of a body share out its slots.
-/

namespace Pictograph

/-! ## Slots of one's own -/

/-- What is asked in front of a change of the answer. -/
theorem Asks.of_map {α β : Type} {rec : Recursion} {m : Recursion → Analysis α} {g : α → β}
    {s : State} {q : Query} (h : Asks rec (fun r ↦ g <$> m r) s q) : Asks rec m s q := by
  intro rec' fault s' hother hself
  have hmap := h rec' fault s' hother hself
  change EStateM.map g (m rec') s = _ at hmap
  unfold EStateM.map at hmap
  split at hmap
  · cases hmap
  · next heq =>
    cases hmap
    exact heq

/-- An expression that an analysis asks for takes a slot. -/
def Hands {α : Type} (rec : Recursion) (m : Recursion → Analysis α) (s : State) (slot : Nat) :
    Prop :=
  ∃ q t s₁, Asks rec m s q ∧ rec.answer q = .ok t s₁
    ∧ q.state.frame.slotCount ≤ slot ∧ slot < s₁.frame.slotCount

/-- An analysis goes along a frame, and it tells slots that it takes from the frame on its way. The
expressions that it asks for take other slots, and the slots in between are all taken. -/
structure Tells {α : Type} (rec : Recursion) (m : Recursion → Telling α) : Prop extends
    Traverses State.Along rec fun r ↦ (m r).run where
  sorted : ∀ {s a slots s'}, (m rec).run s = .ok (a, slots) s' → slots.Pairwise (· < ·)
  bounds : ∀ {s a slots s'}, (m rec).run s = .ok (a, slots) s' →
    ∀ slot ∈ slots, s.frame.slotCount ≤ slot ∧ slot < s'.frame.slotCount
  beside : ∀ {s a slots s' q t s₁}, (m rec).run s = .ok (a, slots) s' →
    Asks rec (fun r ↦ (m r).run) s q → rec.answer q = .ok t s₁ →
    ∀ slot ∈ slots, slot < q.state.frame.slotCount ∨ s₁.frame.slotCount ≤ slot
  covers : ∀ {s a slots s' slot}, (m rec).run s = .ok (a, slots) s' → s.frame.slotCount ≤ slot →
    slot < s'.frame.slotCount → slot ∈ slots ∨ Hands rec (fun r ↦ (m r).run) s slot

namespace Tells

open Analysis

variable {α β σ : Type} {rec : Recursion} {m : Recursion → Telling α}
  {f : Recursion → α → Telling β} {Γ : Setting} {span : Span}

/-- A step that asks nothing and takes no slots. -/
theorem step {x : Analysis α} (h : x.Goes State.Still) :
    Tells rec fun _ ↦ (liftM x : Telling α) := by
  have hrun {s s' : State} {a : α} {slots : List Nat}
      (hrun : (liftM x : Telling α).run s = .ok (a, slots) s') : slots = [] ∧ s.Still s' := by
    obtain ⟨b, hb, heq⟩ := map_ok hrun
    cases heq
    exact ⟨rfl, h s _ s' hb⟩
  refine ⟨.const fun s y s' hy ↦ State.Passable.of_still (hrun hy).2, fun h ↦ ?_,
    fun h slot hslot ↦ ?_, fun _ hq ↦ absurd hq Asks.not_const, fun h hle hlt ↦ ?_⟩
  · rw [(hrun h).1]
    exact .nil
  · rw [(hrun h).1] at hslot
    cases hslot
  · rw [(hrun h).2.slots] at hlt
    exact absurd hlt (Nat.not_lt_of_le hle)

theorem pure (a : α) : Tells rec fun _ ↦ (pure a : Telling α) := .step (.pure a)

/-- An expression is asked for, which takes its slots itself. -/
theorem call (hrec : rec.Goes State.Along) {token : Token} {hint : Option Ty} :
    Tells rec fun r ↦ (liftM (r Γ token hint) : Telling Ty) := by
  have hrun {s s' : State} {t : Ty} {slots : List Nat}
      (hrun : (liftM (rec Γ token hint) : Telling Ty).run s = .ok (t, slots) s') :
      slots = [] ∧ rec.answer ⟨Γ, token, hint, s⟩ = .ok t s' := by
    obtain ⟨_, hanswer, heq⟩ := map_ok hrun
    cases heq
    exact ⟨rfl, hanswer⟩
  refine ⟨?_, fun h ↦ ?_, fun h slot hslot ↦ ?_, fun h _ _ slot hslot ↦ ?_, fun h hle hlt ↦ ?_⟩
  · change Traverses State.Along rec fun r ↦ (fun t ↦ (t, ([] : List Nat))) <$> r Γ token hint
    simp only [map_eq_pure_bind]
    exact .bind (.call hrec) fun _ ↦ .pure _
  · rw [(hrun h).1]
    exact .nil
  · rw [(hrun h).1] at hslot
    cases hslot
  · rw [(hrun h).1] at hslot
    cases hslot
  · refine .inr ⟨_, _, _, ?_, (hrun h).2, hle, hlt⟩
    change Asks rec (fun r ↦ (fun t ↦ (t, ([] : List Nat))) <$> r Γ token hint) _ _
    simp only [map_eq_pure_bind]
    exact .first .call

theorem bind (h : Tells rec m) (h' : ∀ a, Tells rec fun r ↦ f r a) :
    Tells rec fun r ↦ m r >>= f r where
  toTraverses := by
    simp only [Telling.run_bind, map_eq_pure_bind]
    exact .bind h.toTraverses fun x ↦ .bind (h' x.1).toTraverses fun _ ↦ .pure _
  sorted hrun := by
    obtain ⟨a, first, s₁, rest, hm, hf, rfl⟩ := Telling.run_bind_ok hrun
    refine List.pairwise_append.mpr
      ⟨h.sorted hm, (h' a).sorted hf, fun slot hslot slot' hslot' ↦ ?_⟩
    exact Nat.lt_of_lt_of_le (h.bounds hm slot hslot).2 ((h' a).bounds hf slot' hslot').1
  bounds hrun slot hslot := by
    obtain ⟨a, first, s₁, rest, hm, hf, rfl⟩ := Telling.run_bind_ok hrun
    have hfirst := (h.onward _ _ _ hm).slots
    have hrest := ((h' a).onward _ _ _ hf).slots
    rcases List.mem_append.mp hslot with hslot | hslot
    · exact (h.bounds hm slot hslot).imp_right (Nat.lt_of_lt_of_le · hrest)
    · exact ((h' a).bounds hf slot hslot).imp_left (Nat.le_trans hfirst)
  beside {s b slots s' q t s₂} hrun hq hanswer slot hslot := by
    obtain ⟨a, first, s₁, rest, hm, hf, rfl⟩ := Telling.run_bind_ok hrun
    rcases h.toTraverses.asks_bind hq with hq | ⟨x, s₁', hx, hq⟩
    · rcases List.mem_append.mp hslot with hslot | hslot
      · exact h.beside hm hq hanswer slot hslot
      · have hfrom := ((h.through hq).2 t s₂ _ s₁ hanswer hm).slots
        exact .inr (Nat.le_trans hfrom ((h' a).bounds hf slot hslot).1)
    · cases hm.symm.trans hx
      have hq := hq.of_map
      rcases List.mem_append.mp hslot with hslot | hslot
      · have hto := ((h' a).through hq).1.slots
        exact .inl (Nat.lt_of_lt_of_le (h.bounds hm slot hslot).2 hto)
      · exact (h' a).beside hf hq hanswer slot hslot
  covers {s b slots s' slot} hrun hle hlt := by
    obtain ⟨a, first, s₁, rest, hm, hf, rfl⟩ := Telling.run_bind_ok hrun
    simp only [Telling.run_bind, map_eq_pure_bind]
    rcases Nat.lt_or_ge slot s₁.frame.slotCount with hfirst | hrest
    · rcases h.covers hm hle hfirst with hslot | ⟨q, t, s₂, hq, hanswer⟩
      · exact .inl (List.mem_append_left _ hslot)
      · exact .inr ⟨q, t, s₂, hq.first, hanswer⟩
    · rcases (h' a).covers hf hrest hlt with hslot | ⟨q, t, s₂, hq, hanswer⟩
      · exact .inl (List.mem_append_right _ hslot)
      · exact .inr ⟨q, t, s₂, h.toTraverses.asks_behind hm hq.first, hanswer⟩

/-- What takes no slots itself takes none one after the other. -/
theorem lift_bind {m : Recursion → Analysis α} {f : Recursion → α → Analysis β}
    (h : Tells rec fun r ↦ (liftM (m r) : Telling α))
    (h' : ∀ a, Tells rec fun r ↦ (liftM (f r a) : Telling β)) :
    Tells rec fun r ↦ (liftM (m r >>= f r) : Telling β) := by
  have heq (r : Recursion) : (liftM (m r >>= f r) : Telling β)
      = liftM (m r) >>= fun a ↦ (liftM (f r a) : Telling β) := by
    refine WriterT.ext _ _ ?_
    change (fun b ↦ (b, [])) <$> (m r >>= f r) = (fun a ↦ (a, [])) <$> m r >>= fun x ↦
      (fun y ↦ (y.1, x.2 ++ y.2)) <$> (fun b ↦ (b, [])) <$> f r x.1
    simp only [map_bind, bind_map_left, ← comp_map]
    rfl
  simpa only [heq] using h.bind h'

theorem ite {c : Prop} [Decidable c] {m' : Recursion → Telling α} (h : Tells rec m)
    (h' : Tells rec m') : Tells rec fun r ↦ if c then m r else m' r := by
  by_cases hc : c
  · simpa only [if_pos hc] using h
  · simpa only [if_neg hc] using h'

/-- The next slot is taken. -/
theorem slot {f : Recursion → Nat → Telling β} (h : ∀ slot, Tells rec fun r ↦ f r slot) :
    Tells rec fun r ↦ (liftM (newSlot Γ span) : Telling Nat) >>= fun slot ↦ tell [slot] >>= fun _ ↦
      f r slot := by
  have hnext : Tells rec fun _ ↦ WriterT.mk ((fun slot ↦ (slot, [slot])) <$> newSlot Γ span) := by
    have hrun {s s' : State} {slot : Nat} {slots : List Nat}
        (h : ((fun slot ↦ (slot, [slot])) <$> newSlot Γ span) s = .ok (slot, slots) s') :
        slots = [s.frame.slotCount] ∧ s'.frame.slotCount = s.frame.slotCount + 1 := by
      obtain ⟨slot', hslot, heq⟩ := map_ok h
      cases heq
      rcases newSlot_cases Γ span s with hok | ⟨fault, -, herror⟩
      · cases hok.symm.trans hslot
        exact ⟨rfl, rfl⟩
      · cases herror.symm.trans hslot
    refine ⟨?_, fun h ↦ ?_, fun h slot hslot ↦ ?_, fun _ hq ↦ absurd hq Asks.not_const,
      fun h hle hlt ↦ ?_⟩
    · simp only [WriterT.run_mk, map_eq_pure_bind]
      exact .const (.bind .newSlot fun _ ↦ .pure _)
    · rw [(hrun h).1]
      exact List.pairwise_singleton _ _
    · obtain ⟨rfl, hcount⟩ := hrun h
      obtain rfl := List.mem_singleton.mp hslot
      exact ⟨Nat.le_refl _, hcount ▸ Nat.lt_succ_self _⟩
    · obtain ⟨rfl, hcount⟩ := hrun h
      exact .inl (List.mem_singleton.mpr (by omega))
  have heq (r : Recursion) : (liftM (newSlot Γ span) : Telling Nat) >>= (fun slot ↦
      tell [slot] >>= fun _ ↦ f r slot)
      = WriterT.mk ((fun slot ↦ (slot, [slot])) <$> newSlot Γ span) >>= f r := by
    refine WriterT.ext _ _ ?_
    change (fun a ↦ (a, [])) <$> newSlot Γ span >>= (fun x ↦ (fun y ↦ (y.1, x.2 ++ y.2)) <$>
      ((Pure.pure (PUnit.unit, [x.1]) : Analysis _) >>= fun u ↦ (fun y ↦ (y.1, u.2 ++ y.2)) <$>
        (f r x.1).run))
      = (fun slot ↦ (slot, [slot])) <$> newSlot Γ span >>= fun x ↦ (fun y ↦ (y.1, x.2 ++ y.2)) <$>
        (f r x.1).run
    simp only [bind_map_left, pure_bind, List.nil_append, id_map']
  simpa only [heq] using hnext.bind h

/-- The next slot is taken and written. -/
theorem emitSlot {f : Recursion → Nat → Telling β} (h : ∀ slot, Tells rec fun r ↦ f r slot) :
    Tells rec fun r ↦ (liftM (newSlot Γ span) : Telling Nat) >>= fun slot ↦
      Telling.emitSlot slot >>= fun _ ↦ f r slot := by
  simp only [Telling.emitSlot, Telling.tell_lift_bind]
  exact .slot fun slot ↦ .bind (.step (.emitNumber _)) fun _ ↦ h slot

/-- The next slot is taken, and a variable is declared in it. -/
theorem introduce {v : Nat → Variable} {f : Recursion → Telling β}
    (hv : ∀ slot, (v slot).slot = slot) (h : Tells rec f) :
    Tells rec fun r ↦ (liftM (newSlot Γ span) : Telling Nat) >>= fun slot ↦
      Telling.introduce (v slot) >>= fun _ ↦ f r := by
  simp only [Telling.introduce, Telling.tell_lift_bind, hv]
  exact .slot fun slot ↦ .bind (.step (.declare _)) fun _ ↦ h

theorem repeating {step : Recursion → σ → Telling (σ ⊕ β)}
    (h : ∀ v, Tells rec fun r ↦ step r v) (fuel : Nat) (v : σ) :
    Tells rec fun r ↦ Telling.repeating (step r) fuel v := by
  induction fuel generalizing v with
  | zero => exact .step (.throw _)
  | succ fuel ih =>
    refine .bind (h v) fun answer ↦ ?_
    cases answer with
    | inl v => exact ih v
    | inr b => exact .pure b

theorem repeatUntil {step : Recursion → σ → Telling (σ ⊕ β)}
    (h : ∀ v, Tells rec fun r ↦ step r v) (v : σ) :
    Tells rec fun r ↦ Telling.repeatUntil (step r) v :=
  .bind (.step (.bind .get fun _ ↦ .pure _)) fun _ ↦ .repeating h _ _

theorem inScope (h : Tells rec m) : Tells rec fun r ↦ Telling.inScope Γ (m r) :=
  .bind (.step (.modifyEnvironment _)) fun _ ↦ .bind h fun _ ↦
    .bind (.step .leaveScope) fun _ ↦ .pure _

/-- Whatever is put together from steps and expressions takes no slots itself, but for the
constructs that do. -/
theorem composed {W : Construct → Prop} {m : Recursion → Analysis α}
    (hrec : rec.Goes State.Along) (hW : ∀ c, W c → c.takes = false) (h : Composed W m) :
    Tells rec fun r ↦ (liftM (m r) : Telling α) := by
  induction h with
  | step h => exact .step (.step h)
  | bind _ _ ih ih' => exact ih.lift_bind ih'
  | expression Γ hint _ hbefore =>
    refine .lift_bind (.step (.reading .next)) fun token ↦ ?_
    split
    · exact .pure _
    · exact .lift_bind (.step (.modifyFrame fun f ↦ (hbefore f).1)) fun _ ↦
        .lift_bind (.call hrec) fun _ ↦ .pure _
  | inBlock _ _ ih =>
    exact .lift_bind (.step (.enterBlock _)) fun _ ↦ .lift_bind ih fun _ ↦ .step (.leaveBlock _)
  | readVariable =>
    exact .step <| .bind (.resolve? _) fun _ ↦ .bind (.demand _ _) fun _ ↦ .bind (.lift _) fun _ ↦
      .bind (.emitAccess _ _ _) fun _ ↦ .pure _
  | stepVariable =>
    exact .step <| .bind (.reading .variableName) fun _ ↦ .bind (.resolve? _) fun _ ↦
      .bind (.demand _ _) fun _ ↦ .bind (.lift _) fun _ ↦ .bind (.require _ _) fun _ ↦
      .bind (.lift _) fun _ ↦ .bind (.modifyEnvironment _) fun _ ↦
      .bind (.emitAccess _ _ _) fun _ ↦ .pure _
  | declareVariable _ hw | assign _ hw | declareFrozen _ hw | condition _ hw | forIn _ _ hw =>
    exact nomatch hW _ hw

/-- What has nothing to do with variables takes no slots itself. -/
theorem part {m : Recursion → Analysis α} (hrec : rec.Goes State.Along)
    (h : Composed (fun _ ↦ False) m) : Tells rec fun r ↦ (liftM (m r) : Telling α) :=
  .composed hrec (fun _ hw ↦ hw.elim) h

/-! ### Constructs -/

theorem declareVariable : Tells rec fun _ ↦ Telling.declareVariable Γ :=
  .bind (.step (.reading .variableName)) fun _ ↦ .bind (.step (.requireUndeclared _)) fun _ ↦
    .bind (.step (.reading (Γ.catalogue.composed_annotated _ _ _))) fun _ ↦
    .introduce (fun _ ↦ by split <;> rfl) (.pure _)

theorem begun {token : Token} (h : Tells rec m) : Tells rec fun r ↦ Telling.begun token (m r) :=
  .bind (.step (.assemble fun a ↦ a.preserves_atLine _)) fun _ ↦
    .bind (.step (.modifyFrame fun _ ↦ rfl)) fun _ ↦ h

variable (hrec : rec.Goes State.Along)

include hrec

theorem storeNew (x : String) : Tells rec fun r ↦ Telling.storeNew Γ r x span :=
  .bind (.step (.emit _)) fun _ ↦ .emitSlot fun _ ↦ .bind (.part hrec composed_operand) fun _ ↦
    .pure _

theorem assign : Tells rec fun r ↦ Telling.assign Γ r := by
  refine .bind (.step (.reading .variableName)) fun _ ↦ .bind (.step (.resolve? _)) fun found? ↦ ?_
  dsimp only
  split
  · exact .bind (.storeNew hrec _) fun _ ↦ .bind (.step (.declare _)) fun _ ↦ .pure _
  · exact .bind (.step (.lift _)) fun _ ↦ .bind (.step (.modifyEnvironment _)) fun _ ↦
      .bind (.step (.emitAccess _ _ _)) fun _ ↦
      .bind (.part hrec (composed_operandFitting _)) fun _ ↦
      .bind (.step (.modifyEnvironment _)) fun _ ↦ .pure _

theorem declareFrozen : Tells rec fun r ↦ Telling.declareFrozen Γ r :=
  .bind (.step (.reading .variableName)) fun _ ↦ .bind (.step (.requireUndeclared _)) fun _ ↦
    .bind (.storeNew hrec _) fun _ ↦ .bind (.step (.declare _)) fun _ ↦ .pure _

theorem condition : Tells rec fun r ↦ Telling.condition Γ r := by
  refine .bind (.step (.accepts _)) fun _ ↦
    .ite ?_ (.bind (.part hrec (composed_operandFitting _)) fun _ ↦ .pure _)
  exact .bind (.step (.reading .variableName)) fun _ ↦
    .bind (.step (.requireUndeclared _)) fun _ ↦ .bind (.step (.emit _)) fun _ ↦ .emitSlot fun _ ↦
    .bind (.step (.bind .get fun _ ↦ .pure _)) fun _ ↦ .bind (.part hrec composed_operand) fun _ ↦
    .bind (.step (.require _ _)) fun _ ↦ .step (.declare _)

theorem conditionalBlock : Tells rec fun r ↦ (liftM (conditionalBlock Γ r) : Telling _) :=
  .part hrec composed_conditionalBlock

theorem branch : Tells rec fun r ↦ Telling.branch Γ r :=
  .inScope (.bind (.condition hrec) fun _ ↦ .conditionalBlock hrec)

theorem ifChain : Tells rec fun r ↦ Telling.ifChain Γ r := by
  refine .bind (.step (.emit _)) fun _ ↦ .bind (.step .reserveCount) fun _ ↦
    .bind (.branch hrec) fun _ ↦ .bind (.repeatUntil (fun branches ↦ ?_) _) fun conditional ↦
    .bind (.step (.accepts _)) fun _ ↦ .ite ?_ ?_
  · exact .bind (.step (.accepts _)) fun _ ↦ .ite
      (.bind (.step (.emit _)) fun _ ↦ .bind (.branch hrec) fun _ ↦ .pure _) (.pure _)
  · exact .bind (.step (.emit _)) fun _ ↦
      .bind (.part hrec (.inScope composed_conditionalBlock)) fun _ ↦
      .bind (.step (.filling Assembler.preserves_fillCount?)) fun _ ↦
      .bind (.step (.modifyEnvironment _)) fun _ ↦ .pure _
  · exact .bind (.step (.filling Assembler.preserves_fillCount?)) fun _ ↦ .pure _

theorem forIn : Tells rec fun r ↦ Telling.forIn Γ r span := by
  refine .bind (.step .reserve) fun _ ↦ .bind (.step (.reading .variableName)) fun _ ↦
    .bind (.inScope ?_) fun _ ↦ .pure _
  exact .emitSlot fun _ ↦ .emitSlot fun _ ↦ .bind (.part hrec (composed_operandFitting _)) fun _ ↦
    .bind (.step (.demand _ _)) fun _ ↦
    .bind (.step (.filling Assembler.preserves_fillOpcode?)) fun _ ↦
    .bind (.step (.declare _)) fun _ ↦ .conditionalBlock hrec

/-- **Every expression but a closure tells slots of its own.** -/
theorem expressionStep {token : Token} (h : token.asksFor .blockOpen = false) (hint : Option Ty) :
    Tells rec fun r ↦ Telling.expressionStep r Γ token hint := by
  unfold Telling.expressionStep
  split
  · exact .begun .declareVariable
  · exact .begun (.assign hrec)
  · exact .begun (.declareFrozen hrec)
  · exact .begun (.ifChain hrec)
  · exact .begun (.forIn hrec)
  · next hd ha hf hi hl =>
    refine .composed (W := fun c ↦ c.takes = false) hrec (fun _ hc ↦ hc)
      (composed_expressionStep h (fun c hc ↦ ?_) hint)
    cases c <;> first | rfl | contradiction

end Tells

/-! ## The expressions of a frame -/

/-- What a closure takes is given back. -/
theorem Query.slotCount_of_closure {q : Query} {n : Nat} {t : Ty} {s : State}
    (h : q.token.asksFor .blockOpen) (hanswer : (Analysis.expression (n + 1)).answer q = .ok t s) :
    s.frame.slotCount = q.state.frame.slotCount := by
  rw [Query.answer_of_asksFor h nofun] at hanswer
  obtain ⟨arguments, s₁, result, s₂, h₁, h₂, summary, inner, b, -, -, -, -, hframe, -⟩ :=
    Analysis.closure_ok (.of_run (m := fun r ↦ Analysis.closure q.setting r) hanswer)
  rw [hframe]
  exact congrArg Context.slotCount (Analysis.keeps_heading h₁ h₂).context

/-- Every analysis of an expression goes along the frame. -/
theorem Analysis.goesAlong_expression (fuel : Nat) : (expression fuel).Goes State.Along := by
  induction fuel with
  | zero => exact fun _ _ _ ↦ .throw _
  | succ fuel ih =>
    intro Γ token hint
    cases h : token.asksFor .blockOpen with
    | false =>
      exact (Traverses.composed ih (composed_expressionStep (W := fun _ ↦ True) h
        (fun _ _ ↦ trivial) hint)).onward
    | true =>
      intro s t s' hanswer
      exact ⟨goesOnward_expression _ _ _ _ _ _ _ hanswer,
        Nat.le_of_eq (Query.slotCount_of_closure (q := ⟨Γ, token, hint, s⟩) h hanswer).symm⟩

/-- An analysis of expressions with at most `fuel` levels of nesting gets to a query in its own
frame, and `n` levels are left there: what closures ask belongs to other frames. -/
inductive InFrame {α : Type} (m : Recursion → Analysis α) (fuel : Nat) (s : State) :
    Nat → Query → Prop
  | asked {q} (hq : Asks (Analysis.expression fuel) m s q) : InFrame m fuel s fuel q
  | nested {n q q'} (h : InFrame m fuel s (n + 1) q) (hopen : q.token.asksFor .blockOpen = false)
      (hq : Asks (Analysis.expression n)
        (fun r ↦ Analysis.expressionStep r q.setting q.token q.hint) q.state q') :
      InFrame m fuel s n q'

namespace Query

/-- The slots that the construct of an expression takes itself, in order. -/
def taken (q : Query) : (n : Nat) → List Nat
  | 0 => []
  | n + 1 => ((Analysis.value? ((Telling.expressionStep (Analysis.expression n) q.setting q.token
      q.hint).run q.state)).map Prod.snd).getD []

variable {q q' : Query} {n n' : Nat} {s : State} {t : Ty}

theorem told (h : (Analysis.expression (n + 1)).answer q = .ok t s) :
    (Telling.expressionStep (Analysis.expression n) q.setting q.token q.hint).run q.state
      = .ok (t, q.taken (n + 1)) s := by
  have hmuted : (Telling.muted (Telling.expressionStep (Analysis.expression n) q.setting q.token
      q.hint)) q.state = .ok t s := by
    rw [Telling.muted_expressionStep]
    exact h
  obtain ⟨⟨t', slots⟩, hrun, rfl⟩ := Analysis.map_ok hmuted
  rw [taken, hrun]
  rfl

/-- A closure takes no slots of the frame around it. -/
theorem taken_of_closure (h : q.token.asksFor .blockOpen)
    (hanswer : (Analysis.expression n).answer q = .ok t s) : q.taken n = [] := by
  cases n with
  | zero => rfl
  | succ n =>
    have htold := told hanswer
    rw [Telling.expressionStep, beq_iff_eq.mp h] at htold
    obtain ⟨_, -, heq⟩ := Analysis.map_ok htold
    exact (congrArg Prod.snd heq).symm

/-- An expression that is no closure goes along the frame. -/
theorem along (n : Nat) (h : q.token.asksFor .blockOpen = false) :
    Traverses State.Along (Analysis.expression n)
      fun r ↦ Analysis.expressionStep r q.setting q.token q.hint :=
  .composed (Analysis.goesAlong_expression n)
    (composed_expressionStep (W := fun _ ↦ True) h (fun _ _ ↦ trivial) q.hint)

/-- An expression that is no closure takes slots of its own. -/
theorem tells (n : Nat) (h : q.token.asksFor .blockOpen = false) :
    Tells (Analysis.expression n)
      fun r ↦ Telling.expressionStep r q.setting q.token q.hint :=
  .expressionStep (Analysis.goesAlong_expression n) h q.hint

/-- What an expression takes itself are slots that it takes, and no slot twice. -/
theorem taken_bounds (h : (Analysis.expression n).answer q = .ok t s) :
    (q.taken n).Nodup
      ∧ ∀ slot ∈ q.taken n, q.state.frame.slotCount ≤ slot ∧ slot < s.frame.slotCount := by
  cases n with
  | zero => cases h
  | succ n =>
    cases hopen : q.token.asksFor .blockOpen with
    | false =>
      have htells := q.tells n hopen
      exact ⟨(htells.sorted (told h)).imp Nat.ne_of_lt, htells.bounds (told h)⟩
    | true =>
      rw [taken_of_closure hopen h]
      exact ⟨.nil, fun _ hslot ↦ nomatch hslot⟩

end Query

/-! ## The slots of a frame -/

/-- What is told is asked for as if it was not told. -/
theorem Asks.muted_iff {α : Type} {rec : Recursion} {m : Recursion → Telling α} {s : State}
    {q : Query} : Asks rec (fun r ↦ (m r).muted) s q ↔ Asks rec (fun r ↦ (m r).run) s q := by
  refine ⟨Asks.of_map, fun h ↦ ?_⟩
  simp only [Telling.muted, map_eq_pure_bind]
  exact h.first

/-- An expression asks for what it asks for if it tells its slots. -/
theorem Asks.telling_iff {rec : Recursion} {q q' : Query} {s : State} :
    Asks rec (fun r ↦ Analysis.expressionStep r q.setting q.token q.hint) s q'
      ↔ Asks rec (fun r ↦ (Telling.expressionStep r q.setting q.token q.hint).run) s q' := by
  rw [← Asks.muted_iff]
  simp only [Telling.muted_expressionStep]

/-- In a frame an expression is another one, or it is inside of it. -/
def Query.Holds (fuel : Nat) (q : Query) (n : Nat) (q' : Query) : Prop :=
  n = fuel ∧ q' = q ∨ ∃ k, fuel = k + 1 ∧ q.token.asksFor .blockOpen = false
    ∧ InFrame (fun r ↦ Analysis.expressionStep r q.setting q.token q.hint) k q.state n q'

namespace InFrame

variable {α : Type} {m : Recursion → Analysis α} {fuel n n' : Nat} {s s' s₁ : State}
  {q q' : Query} {a : α} {t : Ty}

/-- An expression of a frame is reached. -/
theorem reaches (h : InFrame m fuel s n q) : Reaches m fuel s n q := by
  induction h with
  | asked hq => exact .asked hq
  | nested _ _ hq ih => exact .nested ih hq

/-- What an expression that is asked for leads to in its frame. -/
theorem inside (hq : Asks (Analysis.expression (fuel + 1)) m s q)
    (hopen : q.token.asksFor .blockOpen = false)
    (h : InFrame (fun r ↦ Analysis.expressionStep r q.setting q.token q.hint) fuel q.state n q') :
    InFrame m (fuel + 1) s n q' := by
  induction h with
  | asked hq' => exact .nested (.asked hq) hopen hq'
  | nested _ hopen' hq' ih => exact .nested ih hopen' hq'

/-- What an analysis gets to in its frame is asked directly, or it is inside of what is. -/
theorem exists_asks (h : InFrame m fuel s n q) :
    ∃ q₁, Asks (Analysis.expression fuel) m s q₁ ∧ q₁.Holds fuel n q := by
  induction h with
  | @asked q hq => exact ⟨q, hq, .inl ⟨rfl, rfl⟩⟩
  | @nested n q q' h hopen hq ih =>
    obtain ⟨q₁, hq₁, ⟨rfl, rfl⟩ | ⟨k, hk, hopen₁, hr⟩⟩ := ih
    · exact ⟨q, hq₁, .inr ⟨n, rfl, hopen, .asked hq⟩⟩
    · exact ⟨q₁, hq₁, .inr ⟨k, hk, hopen₁, .nested hr hopen hq⟩⟩

/-- The slots of an expression are taken on the way of an analysis that gets to it. -/
theorem slots (h : InFrame m fuel s n q)
    (hm : Traverses State.Along (Analysis.expression fuel) m)
    (hrun : m (Analysis.expression fuel) s = .ok a s')
    (hanswer : (Analysis.expression n).answer q = .ok t s₁) :
    s.frame.slotCount ≤ q.state.frame.slotCount ∧ s₁.frame.slotCount ≤ s'.frame.slotCount := by
  induction h generalizing t s₁ with
  | @asked q hq =>
    obtain ⟨hto, hfrom⟩ := hm.through hq
    exact ⟨hto.slots, (hfrom t s₁ a s' hanswer hrun).slots⟩
  | @nested n q q' h hopen hq ih =>
    obtain ⟨t', s₂, hanswer'⟩ := h.reaches.answered hrun
    obtain ⟨hto, hfrom⟩ := ih hanswer'
    obtain ⟨hto', hfrom'⟩ := (q.along n hopen).through hq
    exact ⟨Nat.le_trans hto hto'.slots,
      Nat.le_trans (hfrom' t s₁ t' s₂ hanswer hanswer').slots hfrom⟩

/-- What an expression takes itself, the analysis takes on its way. -/
theorem taken_bounds (h : InFrame m fuel s n q)
    (hm : Traverses State.Along (Analysis.expression fuel) m)
    (hrun : m (Analysis.expression fuel) s = .ok a s') :
    (q.taken n).Nodup
      ∧ ∀ slot ∈ q.taken n, s.frame.slotCount ≤ slot ∧ slot < s'.frame.slotCount := by
  obtain ⟨t, s₁, hanswer⟩ := h.reaches.answered hrun
  obtain ⟨hto, hfrom⟩ := h.slots hm hrun hanswer
  obtain ⟨hnodup, hbounds⟩ := Query.taken_bounds hanswer
  refine ⟨hnodup, fun slot hslot ↦ ?_⟩
  obtain ⟨hle, hlt⟩ := hbounds slot hslot
  exact ⟨Nat.le_trans hto hle, Nat.lt_of_lt_of_le hlt hfrom⟩

end InFrame

/-- What an expression takes that is inside of another one, the other one takes. -/
theorem Query.Holds.bounds {fuel n : Nat} {q q' : Query} {t : Ty} {s₁ : State}
    (h : q.Holds fuel n q') (hanswer : (Analysis.expression fuel).answer q = .ok t s₁) :
    ∀ slot ∈ q'.taken n, q.state.frame.slotCount ≤ slot ∧ slot < s₁.frame.slotCount := by
  rcases h with ⟨rfl, rfl⟩ | ⟨k, rfl, hopen, hin⟩
  · exact (Query.taken_bounds hanswer).2
  · exact (hin.taken_bounds (q.along k hopen) hanswer).2

namespace InFrame

variable {α : Type} {fuel n n' : Nat} {s s' s₁ : State} {q q' : Query} {a : α} {t : Ty}

/-- The slots that an expression takes itself are not taken by the expressions inside it. -/
theorem not_mem_taken (h : InFrame (fun r ↦ Analysis.expressionStep r q.setting q.token q.hint) fuel
      q.state n q') (hopen : q.token.asksFor .blockOpen = false)
    (hanswer : (Analysis.expression (fuel + 1)).answer q = .ok t s₁) {slot : Nat}
    (hslot : slot ∈ q.taken (fuel + 1)) : slot ∉ q'.taken n := by
  intro hslot'
  obtain ⟨q₁, hq₁, hin⟩ := h.exists_asks
  have hrun : Analysis.expressionStep (Analysis.expression fuel) q.setting q.token q.hint q.state
      = .ok t s₁ := hanswer
  obtain ⟨t₁, s₂, hanswer₁⟩ := hq₁.answered hrun
  have hbounds := hin.bounds hanswer₁ slot hslot'
  have hbeside := (q.tells fuel hopen).beside (Query.told hanswer) (Asks.telling_iff.mp hq₁)
    hanswer₁ slot hslot
  omega

/-- **No slot is taken twice.** Two expressions of a frame that take a slot are the same. -/
theorem eq_of_mem_taken {m : Recursion → Analysis α} (h : InFrame m fuel s n q)
    (h' : InFrame m fuel s n' q')
    (hm : Traverses State.Along (Analysis.expression fuel) m)
    (hrun : m (Analysis.expression fuel) s = .ok a s') {slot : Nat} (hslot : slot ∈ q.taken n)
    (hslot' : slot ∈ q'.taken n') : n = n' ∧ q = q' := by
  induction fuel generalizing α m s s' a with
  | zero =>
    obtain ⟨q₁, hq₁, -⟩ := h.exists_asks
    obtain ⟨t, s₁, hanswer⟩ := hq₁.answered hrun
    cases hanswer
  | succ fuel ih =>
    obtain ⟨q₁, hq₁, hq⟩ := h.exists_asks
    obtain ⟨q₂, hq₂, hq'⟩ := h'.exists_asks
    obtain ⟨t₁, s₁, hanswer₁⟩ := hq₁.answered hrun
    obtain ⟨t₂, s₂, hanswer₂⟩ := hq₂.answered hrun
    have hbounds := hq.bounds hanswer₁ slot hslot
    have hbounds' := hq'.bounds hanswer₂ slot hslot'
    rcases hm.apart hq₁ hq₂ with rfl | hbefore | hbefore
    · rcases hq with ⟨rfl, rfl⟩ | ⟨k, hk, hopen, hin⟩ <;>
        rcases hq' with ⟨rfl, rfl⟩ | ⟨k', hk', hopen', hin'⟩
      · exact ⟨rfl, rfl⟩
      · cases hk'
        exact absurd hslot' (hin'.not_mem_taken hopen' hanswer₁ hslot)
      · cases hk
        exact absurd hslot (hin.not_mem_taken hopen hanswer₁ hslot')
      · cases hk
        cases hk'
        exact ih hin hin' (q₁.along fuel hopen) hanswer₁
    · have hslots := (hbefore t₁ s₁ hanswer₁).slots
      omega
    · have hslots := (hbefore t₂ s₂ hanswer₂).slots
      omega

/-- **Every slot is taken.** A slot that an analysis does not tell is taken by an expression of its
frame. -/
theorem exists_mem_taken {m : Recursion → Telling α} {slots : List Nat} {slot : Nat}
    (hm : Tells (Analysis.expression fuel) m)
    (hrun : (m (Analysis.expression fuel)).run s = .ok (a, slots) s')
    (hle : s.frame.slotCount ≤ slot) (hlt : slot < s'.frame.slotCount) :
    slot ∈ slots ∨ ∃ n q, InFrame (fun r ↦ (m r).muted) fuel s n q ∧ slot ∈ q.taken n := by
  induction fuel generalizing α m s s' a slots with
  | zero =>
    rcases hm.covers hrun hle hlt with hslot | ⟨q, t, s₁, -, hanswer, -⟩
    · exact .inl hslot
    · cases hanswer
  | succ fuel ih =>
    rcases hm.covers hrun hle hlt with hslot | ⟨q, t, s₁, hq, hanswer, hle', hlt'⟩
    · exact .inl hslot
    · have hasks := Asks.muted_iff.mpr hq
      right
      cases hopen : q.token.asksFor .blockOpen with
      | true =>
        rw [Query.slotCount_of_closure hopen hanswer] at hlt'
        exact absurd hlt' (Nat.not_lt_of_le hle')
      | false =>
        rcases ih (q.tells fuel hopen) (Query.told hanswer) hle' hlt' with
          hslot | ⟨n, q', hq', hslot⟩
        · exact ⟨fuel + 1, q, .asked hasks, hslot⟩
        · simp only [Telling.muted_expressionStep] at hq'
          exact ⟨n, q', .inside hasks hopen hq', hslot⟩

end InFrame

/-- **The statements of a body share out its slots.** Each slot that is taken between their first
and their last one is taken by one expression of the frame, which takes it once. -/
theorem Analysis.shares_bodyStatements {Γ : Setting} {n : Nat} {s s' : State} {span : Span}
    (h : bodyStatements Γ (expression n) s = .ok span s') :
    (∀ k q, InFrame (fun r ↦ bodyStatements Γ r) n s k q → (q.taken k).Nodup)
      ∧ ∀ slot, s.frame.slotCount ≤ slot ∧ slot < s'.frame.slotCount ↔
        ∃! p : Nat × Query, InFrame (fun r ↦ bodyStatements Γ r) n s p.1 p.2
          ∧ slot ∈ p.2.taken p.1 := by
  have hrec := goesAlong_expression n
  have halong : Traverses State.Along (expression n) fun r ↦ bodyStatements Γ r :=
    .composed (W := fun _ ↦ True) hrec composed_bodyStatements
  refine ⟨fun k q hq ↦ (hq.taken_bounds halong h).1, fun slot ↦ ⟨fun ⟨hle, hlt⟩ ↦ ?_, ?_⟩⟩
  · rcases InFrame.exists_mem_taken (.part hrec composed_bodyStatements)
      (Telling.run_lift_of_ok h) hle hlt with hslot | ⟨k, q, hq, hslot⟩
    · cases hslot
    · simp only [Telling.muted_lift] at hq
      refine ⟨(k, q), ⟨hq, hslot⟩, fun p hp ↦ ?_⟩
      obtain ⟨hk, hq'⟩ := hp.1.eq_of_mem_taken hq halong h hp.2 hslot
      exact Prod.ext hk hq'
  · rintro ⟨p, ⟨hp, hslot⟩, -⟩
    exact (hp.taken_bounds halong h).2 slot hslot

end Pictograph
