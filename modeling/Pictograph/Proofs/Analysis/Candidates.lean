import Pictograph.Proofs.Analysis.FreezingConstructs
import Pictograph.Proofs.Scope.Candidates

/-!
# What is recommended to be frozen

That a variable could be frozen is said at most once for each time that its name stands in the body
where it was declared. This is so because each of these names lets one variable come up, which is
recommended when its scope is left, if it still is a candidate then. So the recommendations that
were given, the candidates in reach and the names that are still to be read never become more
together.

A name is read before the variable is declared, and an expression may be analysed in between. So
what is left of a construct may add a candidate whose name it does not read itself, and what a run
has in store beside an expression inside it is to be kept apart.

## Main definitions

* `State.tally`: recommendations, candidates and names, together.
* `Analysis.Raises`: by how much a step may raise this number.
* `PassesThrough`: how a run passes through an expression, counting what is beside it.
* `Carries`: an analysis does not raise the number by more than a given amount.

## Main results

* `Carries.bind`: how one thing behind another raises the number.
* `Composed.carries`: whatever is put together from steps and expressions does not raise it at all.
* `Analysis.tally_write`: writing to a variable lowers it.
-/

namespace Pictograph

/-- What it costs to declare a variable, if the origin is watched. -/
def Origin.cost (o : Origin) (x : String) (p : Span) : Nat :=
  if x == o.name && p == o.place then 1 else 0

/-- The recommendation to freeze a variable. -/
def Origin.recommendation (o : Origin) : Warning := ⟨.couldBeFrozen o.name, o.place⟩

/-! ## Counting -/

namespace State

variable {o : Origin}

/-- How often a variable was recommended to be frozen, or may still come up. -/
def announced (o : Origin) (s : State) : Nat :=
  s.session.warnings.count o.recommendation + s.cursor.after.countP o.isNamedBy

/-- How often a variable was recommended to be frozen, or may be yet. -/
def tally (T : Tally o) (s : State) : Nat := s.environment.tally T + s.announced o

theorem tally_withEnvironment (T : Tally o) (s : State) (e : Environment) :
    { s with environment := e }.tally T = e.tally T + s.announced o := rfl

end State

theorem Variable.recommendation_eq_iff {o : Origin} {v : Variable} :
    v.recommendation = o.recommendation ↔ v.comesFrom o := by
  rw [comesFrom_iff, recommendation, Origin.recommendation, Warning.mk.injEq,
    Remark.couldBeFrozen.injEq]

/-- As many variables as are recommended are candidates. -/
theorem count_recommendation (o : Origin) (l : List Variable) :
    (l.map (·.recommendation)).count o.recommendation = l.countP (·.comesFrom o) := by
  rw [List.count, List.countP_map]
  refine List.countP_congr fun v _ ↦ ?_
  rw [Function.comp_apply, beq_iff_eq, Variable.recommendation_eq_iff]

theorem Variable.counts_of_freezable {o : Origin} (T : Tally o) {v : Variable}
    (ho : v.comesFrom o) (h : !v.isFrozen && !v.isMutated) : T.counts v := by
  obtain ⟨hfree, hwritten⟩ := Bool.and_eq_true_iff.mp h
  exact Bool.and_eq_true_iff.mpr ⟨Bool.and_eq_true_iff.mpr ⟨ho, hfree⟩,
    Bool.or_eq_true_iff.mpr (.inr hwritten)⟩

theorem Tally.countP_freezable_le {o : Origin} (T : Tally o) (s : Scope) :
    s.freezable.countP (·.comesFrom o) ≤ T.ofScope s := by
  rw [Scope.freezable, List.countP_filter]
  refine List.countP_mono_left fun v _ h ↦ ?_
  obtain ⟨ho, h⟩ := Bool.and_eq_true_iff.mp h
  exact Variable.counts_of_freezable T ho h

theorem State.announced_of_cursor {o : Origin} {s : State} {c : Cursor} {read : List Token}
    (h : s.cursor.Onward c read) : { s with cursor := c }.announced o ≤ s.announced o := by
  rw [announced, announced, h.after, List.countP_append]
  exact Nat.add_le_add_left (Nat.le_add_left _ _) _

/-! ## Steps -/

namespace Analysis

variable {α β : Type} {o : Origin} {n : Nat} {x : Analysis α}

/-- A step raises the number by no more than a given amount. -/
def Raises (o : Origin) (n : Nat) (x : Analysis α) : Prop :=
  ∀ s a s', x s = .ok a s' → ∀ T : Tally o, s'.tally T ≤ s.tally T + n

namespace Raises

/-- A step that neither reads nor warns, and leaves the variables alone. -/
theorem of_same (h : ∀ s a s', x s = .ok a s' → s'.cursor = s.cursor
    ∧ s'.session.warnings = s.session.warnings ∧ s'.environment = s.environment) :
    Raises o 0 x := by
  intro s a s' hrun T
  obtain ⟨hcursor, hwarnings, henvironment⟩ := h s a s' hrun
  rw [State.tally, State.tally, State.announced, State.announced, hcursor, hwarnings, henvironment]
  exact Nat.le_refl _

theorem assemble (g : Assembler → Assembler) : Raises o 0 (assemble g) :=
  .of_same <| by rintro s _ _ ⟨⟩; exact ⟨rfl, rfl, rfl⟩

theorem emitWord (w : UInt32) : Raises o 0 (emitWord w) := .assemble _

theorem emitNumber (n : Nat) : Raises o 0 (emitNumber n) := .emitWord _

theorem filling (g : Assembler → Option Assembler) : Raises o 0 (filling g) := by
  refine .of_same fun s _ s' h ↦ ?_
  obtain ⟨a, -, rfl⟩ := filling_ok h
  exact ⟨rfl, rfl, rfl⟩

theorem modifyFrame (g : Frame → Frame) : Raises o 0 (modifyFrame g) :=
  .of_same <| by rintro s _ _ ⟨⟩; exact ⟨rfl, rfl, rfl⟩

/-- A step that leaves the state as it is. -/
theorem of_eq (h : ∀ s a s', x s = .ok a s' → s' = s) : Raises o 0 x := by
  refine .of_same fun s a s' hrun ↦ ?_
  cases h s a s' hrun
  exact ⟨rfl, rfl, rfl⟩

theorem get : Raises o 0 (get : Analysis State) := .of_eq <| by rintro s _ _ ⟨⟩; rfl

theorem pure (a : α) : Raises o 0 (pure a : Analysis α) := .of_eq <| by rintro s _ _ ⟨⟩; rfl

theorem throw (fault : Fault) : Raises o 0 (throw fault : Analysis α) := by
  rintro s a s' ⟨⟩

theorem reading {r : Reading α} (h : r.Composed) : Raises o 0 (reading r) := by
  intro s a s' hrun T
  obtain ⟨cursor, hr, rfl⟩ := reading_ok hrun
  obtain ⟨read, hread⟩ := h.onward hr
  exact Nat.add_le_add_left (State.announced_of_cursor hread) _

theorem accepts (construct : Construct) : Raises o 0 (accepts construct) := by
  intro s a s' hrun T
  obtain ⟨t?, hrun, -⟩ := map_ok hrun
  obtain ⟨cursor, hr, rfl⟩ := reading_ok hrun
  obtain ⟨read, hread⟩ := Reading.accept_onward hr
  exact Nat.add_le_add_left (State.announced_of_cursor hread) _

theorem require (condition : Bool) (cause : Cause) (span : Span) :
    Raises o 0 (require condition cause span) := by
  refine .of_eq fun s _ s' h ↦ ?_
  exact (require_ok h).2.symm

theorem demand (value? : Option α) (cause : Cause) (span : Span) :
    Raises o 0 (demand value? cause span) := by
  refine .of_eq fun s _ s' h ↦ ?_
  exact (demand_ok h).2.symm

theorem lift (x : Except Fault α) : Raises o 0 (lift x) := by
  refine .of_eq fun s _ s' h ↦ ?_
  exact (lift_ok h).2.symm

/-- A step that changes the variables, but adds no candidates. -/
theorem modifyEnvironment {g : Environment → Environment}
    (h : ∀ (T : Tally o) e, (g e).tally T ≤ e.tally T) : Raises o 0 (modifyEnvironment g) := by
  rintro s _ _ ⟨⟩ T
  exact Nat.add_le_add_right (h T s.environment) _

theorem sheds {g : Environment → Environment} (h : ∀ e : Environment, e.Sheds (g e)) :
    Raises o 0 (Analysis.modifyEnvironment g) := .modifyEnvironment fun _ e ↦ (h e).tally_le

theorem warn {remark : Remark} (span : Span) (h : ∀ x, remark ≠ .couldBeFrozen x) :
    Raises o 0 (warn remark span) := by
  rintro s _ _ ⟨⟩ T
  have hne : (⟨remark, span⟩ : Warning) ≠ o.recommendation :=
    fun heq ↦ h o.name (congrArg Warning.remark heq)
  have hcount : (s.session.warnings.push ⟨remark, span⟩).count o.recommendation
      = s.session.warnings.count o.recommendation := by
    rw [Array.count_push, if_neg (by simpa using hne), Nat.add_zero]
  exact Nat.add_le_add_left (Nat.add_le_add_right (Nat.le_of_eq hcount) _) _

/-- A declaration adds the variable, unless it is frozen. -/
theorem declare (v : Variable) : Raises o (o.cost v.name v.span) (declare v) := by
  intro s _ s' h T
  obtain ⟨e, he, rfl⟩ := declare_ok h
  have hdeclare := Environment.tally_declare (T := T) he
  have hle : (if T.counts v then 1 else 0) ≤ o.cost v.name v.span := by
    split
    · next hcounts => exact Nat.le_of_eq (if_pos (Variable.comesFrom_of_counts hcounts)).symm
    · exact Nat.zero_le _
  rw [State.tally_withEnvironment, State.tally]
  omega

theorem declare_frozen {v : Variable} (hv : v.isFrozen) : Raises o 0 (Analysis.declare v) := by
  intro s _ s' h T
  obtain ⟨e, he, rfl⟩ := declare_ok h
  have hdeclare := Environment.tally_declare (T := T) he
  rw [Variable.counts_of_isFrozen hv] at hdeclare
  exact Nat.add_le_add_right hdeclare _

/-- Recommendations are as many as there are variables of the origin. -/
theorem announced_recommendFrozen {Γ : Setting} {candidates : List Variable} {s s' : State}
    {u : Unit} (h : recommendFrozen Γ candidates s = .ok u s') :
    s'.announced o ≤ s.announced o + candidates.countP (·.comesFrom o)
      ∧ s'.environment = s.environment := by
  rw [recommendFrozen_eq] at h
  cases h
  refine ⟨?_, rfl⟩
  have hcount : (if Γ.options.recommendsFrozen then (candidates.map (·.recommendation)).toArray
      else #[]).count o.recommendation ≤ candidates.countP (·.comesFrom o) := by
    split
    · rw [List.count_toArray, count_recommendation]
    · exact Nat.zero_le _
  change Array.count _ (_ ++ _) + s.cursor.after.countP o.isNamedBy ≤ s.announced o + _
  rw [State.announced, Array.count_append]
  omega

theorem leaveScope (Γ : Setting) : Raises o 0 (leaveScope Γ) := by
  intro s u s' h T
  rw [leaveScope_eq] at h
  cases hpop : s.environment.pop? with
  | none =>
    rw [hpop] at h
    cases h
    exact Nat.le_refl _
  | some popped =>
    rw [hpop] at h
    obtain ⟨hannounced, henvironment⟩ := announced_recommendFrozen (o := o) h
    have hleft := Environment.tally_pop? (T := T) hpop
    have hcandidates := T.countP_freezable_le popped.1
    have hsame : { s with environment := popped.2 }.announced o = s.announced o := rfl
    rw [State.tally, State.tally, henvironment, hleft]
    rw [hsame] at hannounced
    dsimp only
    omega

theorem bind {f : α → Analysis β} (h : Raises o 0 x) (h' : ∀ a, Raises o n (f a)) :
    Raises o n (x >>= f) := by
  intro s b s' hrun T
  obtain ⟨a, s₁, ha, hb⟩ := bind_ok hrun
  exact Nat.le_trans (h' a s₁ b s' hb T) (Nat.add_le_add_right (h s a s₁ ha T) n)

theorem ite {c : Prop} [Decidable c] {y : Analysis α} (h : Raises o n x) (h' : Raises o n y) :
    Raises o n (if c then x else y) := by
  split
  · exact h
  · exact h'

theorem frame : Raises o 0 frame := .bind .get fun _ ↦ .pure _

theorem newSlot (Γ : Setting) (span : Span) : Raises o 0 (newSlot Γ span) :=
  .bind .frame fun _ ↦ .bind (.require _ _ _) fun _ ↦ .bind (.modifyFrame _) fun _ ↦ .pure _

theorem emitAccess (storage : Storage) (action : Access) (slot : Nat) :
    Raises o 0 (emitAccess storage action slot) :=
  .bind (.assemble _) fun _ ↦ .ite (.bind (.modifyFrame _) fun _ ↦ .emitNumber _) (.emitNumber _)

theorem requireUndeclared (x : String) (span : Span) : Raises o 0 (requireUndeclared x span) :=
  .bind .get fun _ ↦ .require _ _ _

theorem enterConditional (withFields : Bool) : Raises o 0 (enterConditional withFields) :=
  .bind .get fun _ ↦ .ite (.bind (.throw _) fun _ ↦ .sheds fun e ↦ .shift e 1 withFields)
    (.sheds fun e ↦ .shift e 1 withFields)

theorem leaveConditional (withFields : Bool) : Raises o 0 (leaveConditional withFields) := by
  intro s slots s' h T
  obtain ⟨s₀, s₁, hget, h⟩ := bind_ok h
  cases hget
  obtain ⟨_, s₂, hmodify, h⟩ := bind_ok h
  cases hmodify
  obtain ⟨-, rfl⟩ := pure_ok h
  exact Nat.add_le_add_right (Environment.Sheds.shift s.environment (-1) withFields).tally_le _

theorem enterBlock (withFields : Bool) : Raises o 0 (enterBlock withFields) :=
  .bind (.enterConditional _) fun _ ↦ .modifyFrame _

theorem leaveBlock (withFields : Bool) : Raises o 0 (leaveBlock withFields) :=
  .bind (.leaveConditional _) fun _ ↦ .bind (.modifyFrame _) fun _ ↦ .pure _

/-- **A step that has to do with no particular variable** adds nothing. -/
theorem step {x : Analysis α} (h : Step x) : Raises o 0 x := by
  cases h with
  | pure a => exact .pure a
  | throw fault => exact .throw fault
  | reading h => exact .reading h
  | here | remaining | frame => exact .bind .get fun _ ↦ .pure _
  | deadPlace? =>
    refine .of_eq fun s _ s' h ↦ ?_
    rw [deadPlace?_eq] at h
    cases h
    rfl
  | setLine | emit | emitWord => exact .assemble _
  | reserve | reserveCount => exact .of_same <| by rintro s _ _ ⟨⟩; exact ⟨rfl, rfl, rfl⟩
  | fill | fillOpcode | fillCount => exact .filling _
  | warn span h => exact .warn span h
  | intern => exact .of_same <| by rintro s _ _ ⟨⟩; exact ⟨rfl, rfl, rfl⟩
  | modifyFrame => exact .modifyFrame _
  | requireComplete => exact .of_eq fun s _ s' h ↦ (requireComplete_ok h).1.symm
  | enterScope => exact .modifyEnvironment fun _ e ↦ Nat.le_of_eq e.tally_push
  | leaveScope => exact .leaveScope _
  | settleEach slots => exact .modifyEnvironment fun _ ↦ Environment.tally_foldl_settle slots

end Raises

end Analysis

/-- A name that is read makes room for a variable. -/
theorem Analysis.tally_variableName {o : Origin} {x : String} {p : Span} {s s₁ : State}
    (h : variableName s = .ok (x, p) s₁) (T : Tally o) :
    s₁.tally T + o.cost x p ≤ s.tally T := by
  obtain ⟨t, d, hadvance, hname, rfl, rfl⟩ := exists_advance_of_variableName h
  have hnamed : o.isNamedBy t = (x == o.name && t.span == o.place) := by
    rw [Origin.isNamedBy, hname]
    rfl
  have hcount : s.cursor.after.countP o.isNamedBy
      = d.after.countP o.isNamedBy + o.cost x t.span := by
    rw [(Cursor.advance_eq_some hadvance).1, List.countP_cons, hnamed]
    rfl
  rw [State.tally, State.tally, State.announced, State.announced, hcount]
  dsimp only
  omega

/-! ### Writing to a variable -/

/-- What a variable becomes that is written to is no new candidate. -/
theorem Environment.sheds_write {e : Environment} {x : String} {st : Storage} {v w : Variable}
    {p : Span} (hx : e.resolve? x = some (st, v)) (hw : v.mutate p = .ok w) :
    e.Sheds (e.update x fun _ ↦ w) := by
  refine .update fun u hu ↦ ?_
  cases hx.symm.trans hu
  exact Variable.sheds_mutate hw

namespace Analysis

variable {o : Origin} {Γ : Setting} {rec : Recursion} {s s' : State} {t : Ty} {x : String}
  {p : Span}

/-- Notes the writing of the variable that a name refers to, if there is one. -/
def overwrite (x : String) (p : Span) : Analysis (Option (Storage × Variable)) := do
  let found? ← resolve? x
  found?.elim (return none) fun found ↦ do
    let mutated ← lift (found.2.mutate p)
    modifyEnvironment (·.update x fun _ ↦ mutated)
    return some found

theorem assign_eq (Γ : Setting) (rec : Recursion) : assign Γ rec = variableName >>= fun name ↦
    overwrite name.1 name.2 >>= fun found? ↦ found?.elim
      ((storeNew Γ rec name.1 name.2 >>= declare) >>= fun _ ↦ return .nothingness) fun found ↦ do
        emitAccess found.1 .store found.2.slot
        let _ ← operandFitting Γ rec found.2.type
        modifyEnvironment (·.update name.1 Variable.settle)
        return .nothingness := by
  refine congrArg (variableName >>= ·) (funext fun name ↦ ?_)
  rw [overwrite, bind_assoc]
  refine congrArg (resolve? name.1 >>= ·) (funext fun found? ↦ ?_)
  cases found? with
  | none => simp only [Option.elim, pure_bind, bind_assoc]
  | some found => simp only [Option.elim, pure_bind, bind_assoc]

theorem GoesOnward.overwrite (x : String) (p : Span) : (overwrite x p).GoesOnward :=
  .bind (.resolve? _) fun found? ↦ by
    cases found? with
    | none => exact .pure _
    | some found => exact .bind (.lift _) fun _ ↦ .bind (.modifyEnvironment _) fun _ ↦ .pure _

theorem overwrite_ok {found? : Option (Storage × Variable)}
    (h : overwrite x p s = .ok found? s') : s.environment.resolve? x = found?
      ∧ (found? = none ∧ s' = s ∨ ∃ st v w, found? = some (st, v) ∧ v.mutate p = .ok w
        ∧ s' = { s with environment := s.environment.update x fun _ ↦ w }) := by
  obtain ⟨found?', s₁, hfound, h⟩ := bind_ok h
  obtain ⟨rfl, rfl⟩ := resolve?_ok hfound
  cases hx : s.environment.resolve? x with
  | none =>
    rw [hx] at h
    obtain ⟨rfl, rfl⟩ := pure_ok h
    exact ⟨rfl, .inl ⟨rfl, rfl⟩⟩
  | some found =>
    rw [hx] at h
    obtain ⟨w, s₂, hlift, h⟩ := bind_ok h
    obtain ⟨hw, rfl⟩ := lift_ok hlift
    obtain ⟨_, s₃, hmodify, h⟩ := bind_ok h
    cases hmodify
    obtain ⟨rfl, rfl⟩ := pure_ok h
    exact ⟨rfl, .inr ⟨found.1, found.2, w, rfl, hw, rfl⟩⟩

theorem stepVariable_ok {construct : Construct} {action : Access}
    (h : stepVariable Γ construct action s = .ok t s') :
    ∃ x p s₁ st v w, variableName s = .ok (x, p) s₁ ∧ s₁.environment.resolve? x = some (st, v)
      ∧ v.mutate p = .ok w ∧ emitAccess st action v.slot
        { s₁ with environment := s₁.environment.update x fun _ ↦ w } = .ok () s' := by
  obtain ⟨⟨x, p⟩, s₁, hname, h⟩ := bind_ok h
  obtain ⟨found?, s₂, hfound, h⟩ := bind_ok h
  obtain ⟨rfl, rfl⟩ := resolve?_ok hfound
  obtain ⟨⟨st, v⟩, s₃, hdemand, h⟩ := bind_ok h
  obtain ⟨hx, rfl⟩ := demand_ok hdemand
  obtain ⟨_, s₄, hready, h⟩ := bind_ok h
  obtain ⟨-, rfl⟩ := lift_ok hready
  obtain ⟨_, s₅, hfits, h⟩ := bind_ok h
  obtain ⟨-, rfl⟩ := require_ok hfits
  obtain ⟨w, s₆, hmutate, h⟩ := bind_ok h
  obtain ⟨hw, rfl⟩ := lift_ok hmutate
  obtain ⟨_, s₇, hmodify, h⟩ := bind_ok h
  cases hmodify
  obtain ⟨_, s₈, haccess, h⟩ := bind_ok h
  obtain ⟨-, rfl⟩ := pure_ok h
  exact ⟨x, p, s₁, st, v, w, hname, hx, hw, haccess⟩

theorem Raises.overwrite (x : String) (p : Span) : Raises o 0 (overwrite x p) := by
  intro s found? s' h T
  obtain ⟨hx, ⟨-, rfl⟩ | ⟨st, v, w, rfl, hw, rfl⟩⟩ := overwrite_ok h
  · exact Nat.le_refl _
  · exact Nat.add_le_add_right (Environment.sheds_write hx hw).tally_le _

/-- **A variable that is written to** is a candidate no more. -/
theorem tally_write {v w : Variable} (hx : s.environment.resolve? x = some (.frame, v))
    (hw : v.mutate p = .ok w) (ho : v.comesFrom o) :
    { s with environment := s.environment.update x fun _ ↦ w }.tally (.all o false)
      < s.tally (.all o true) :=
  Nat.add_lt_add_right (Environment.tally_write hx hw ho) _

theorem Raises.stepVariable (construct : Construct) (action : Access) :
    Raises o 0 (stepVariable Γ construct action) := by
  intro s t s' h T
  obtain ⟨x, p, s₁, st, v, w, hname, hx, hw, haccess⟩ := stepVariable_ok h
  have hread := tally_variableName hname T
  have hwrite := (Environment.sheds_write hx hw).tally_le (T := T)
  have hrest := Raises.emitAccess st action v.slot _ _ _ haccess T
  rw [State.tally_withEnvironment T s₁] at hrest
  rw [State.tally] at hread
  omega

end Analysis

/-! ## Expressions -/

/-- An expression does not raise the number. -/
def Recursion.Conserves (rec : Recursion) (o : Origin) (q : Query) : Prop :=
  ∀ t s, rec.answer q = .ok t s → ∀ T : Tally o, s.tally T ≤ q.state.tally T

/-- A run from `s` to `s'` passes through an expression from `q` to `s₁`. Besides what counts in the
expression, something may count in front of it and behind it, at most `n` of it is added. -/
def PassesThrough (o : Origin) (n : Nat) (s q s₁ s' : State) : Prop :=
  ∃ aside : Bool → Nat, aside false ≤ aside true ∧ ∀ written,
    q.tally (.all o written) + aside written ≤ s.tally (.all o written) + n
      ∧ s'.tally (.all o written) ≤ s₁.tally (.all o written) + aside written

theorem PassesThrough.refl (o : Origin) (s s' : State) : PassesThrough o 0 s s s' s' :=
  ⟨fun _ ↦ 0, Nat.le_refl _, fun _ ↦ ⟨Nat.le_refl _, Nat.le_refl _⟩⟩

/-- An expression inside another one. -/
theorem PassesThrough.trans {o : Origin} {n : Nat} {s s' q q' s₁ s₁' : State}
    (h : PassesThrough o n s q s₁ s') (h' : PassesThrough o 0 q q' s₁' s₁) :
    PassesThrough o n s q' s₁' s' := by
  obtain ⟨aside, hmono, haside⟩ := h
  obtain ⟨aside', hmono', haside'⟩ := h'
  refine ⟨fun written ↦ aside written + aside' written, Nat.add_le_add hmono hmono', fun w ↦ ?_⟩
  obtain ⟨hto, hfrom⟩ := haside w
  obtain ⟨hto', hfrom'⟩ := haside' w
  dsimp only
  constructor <;> omega

/-- An analysis raises the number by no more than a given amount, if the expressions inside it do
not raise it. -/
structure Carries (o : Origin) (rec : Recursion) (n : Nat) {α : Type}
    (m : Recursion → Analysis α) : Prop where
  traverses : Traverses State.Onward rec m
  run : ∀ {s a s'}, (∀ q, Asks rec m s q → rec.Conserves o q) → m rec s = .ok a s' →
    ∀ T : Tally o, s'.tally T ≤ s.tally T + n
  through : ∀ {s q t s₁ a s'}, (∀ q, Asks rec m s q → rec.Conserves o q) → Asks rec m s q →
    rec.answer q = .ok t s₁ → m rec s = .ok a s' → PassesThrough o n s q.state s₁ s'

namespace Carries

open Analysis

variable {α β : Type} {o : Origin} {rec : Recursion} {n n' : Nat} {m : Recursion → Analysis α}
  {f : Recursion → α → Analysis β} {Γ : Setting} {x : Analysis α}

/-- A step that asks nothing. -/
theorem const (hx : x.GoesOnward) (h : Raises o n x) : Carries o rec n fun _ ↦ x where
  traverses := .const hx
  run _ hrun T := h _ _ _ hrun T
  through _ hq := absurd hq Asks.not_const

/-- **What comes behind adds what it adds.** -/
theorem bind_add (h : Carries o rec n m) (h' : ∀ a, Carries o rec n' fun r ↦ f r a) :
    Carries o rec (n + n') fun r ↦ m r >>= f r where
  traverses := h.traverses.bind fun a ↦ (h' a).traverses
  run {s b s'} hasked hrun T := by
    obtain ⟨a, s₁, ha, hb⟩ := bind_ok hrun
    have hfirst := h.run (fun q hq ↦ hasked q hq.first) ha T
    have hrest := (h' a).run (fun q hq ↦ hasked q (h.traverses.asks_behind ha hq)) hb T
    omega
  through {s q t s₁ b s'} hasked hq hanswer hrun := by
    obtain ⟨a, s₂, ha, hb⟩ := bind_ok hrun
    have hrest (q : Query) (hq : Asks rec (fun r ↦ f r a) s₂ q) : rec.Conserves o q :=
      hasked q (h.traverses.asks_behind ha hq)
    rcases h.traverses.asks_bind hq with hq | ⟨a', s₂', ha', hq⟩
    · obtain ⟨aside, hmono, haside⟩ := h.through (fun q hq ↦ hasked q hq.first) hq hanswer ha
      refine ⟨fun w ↦ aside w + n', Nat.add_le_add_right hmono n', fun w ↦ ?_⟩
      obtain ⟨hto, hfrom⟩ := haside w
      have hbehind := (h' a).run hrest hb (.all o w)
      dsimp only
      constructor <;> omega
    · cases ha.symm.trans ha'
      obtain ⟨aside, hmono, haside⟩ := (h' a).through hrest hq hanswer hb
      refine ⟨aside, hmono, fun w ↦ ?_⟩
      obtain ⟨hto, hfrom⟩ := haside w
      have hfirst := h.run (fun q hq ↦ hasked q hq.first) ha (.all o w)
      constructor <;> omega

theorem bind (h : Carries o rec 0 m) (h' : ∀ a, Carries o rec n fun r ↦ f r a) :
    Carries o rec n fun r ↦ m r >>= f r := Nat.zero_add n ▸ h.bind_add h'

theorem bind_rest (h : Carries o rec n m) (h' : ∀ a, Carries o rec 0 fun r ↦ f r a) :
    Carries o rec n fun r ↦ m r >>= f r := h.bind_add h'

theorem pure (a : α) : Carries o rec 0 fun _ ↦ (Pure.pure a : Analysis α) :=
  .const (.pure a) (.pure a)

theorem ite {c : Prop} [Decidable c] {m' : Recursion → Analysis α} (h : Carries o rec n m)
    (h' : Carries o rec n m') : Carries o rec n fun r ↦ if c then m r else m' r := by
  by_cases hc : c
  · simpa only [if_pos hc] using h
  · simpa only [if_neg hc] using h'

theorem call (hrec : rec.GoesOnward) {token : Token} {hint : Option Ty} :
    Carries o rec 0 fun r ↦ r Γ token hint where
  traverses := .call hrec
  run hasked hrun T := hasked _ .call _ _ hrun T
  through _ hq hanswer hrun := by
    obtain rfl := hq.eq_of_call
    cases hanswer.symm.trans hrun
    exact .refl o _ _

theorem step {m : Analysis α} (h : Step m) : Carries o rec 0 fun _ ↦ m :=
  .const (.step h) (.step h)

/-- **A name that is read** makes room for the variable that it may introduce. -/
theorem naming {f : Recursion → String × Span → Analysis β}
    (h : ∀ x p, Carries o rec (o.cost x p) fun r ↦ f r (x, p)) :
    Carries o rec 0 fun r ↦ variableName >>= f r where
  traverses := .bind (.const (.reading .variableName)) fun (x, p) ↦ (h x p).traverses
  run {s b s'} hasked hrun T := by
    obtain ⟨⟨x, p⟩, s₁, hname, hb⟩ := bind_ok hrun
    have hrest := (h x p).run (fun q hq ↦ hasked q (.behind hname hq)) hb T
    have hread := tally_variableName hname T
    omega
  through {s q t s₁ b s'} hasked hq hanswer hrun := by
    obtain ⟨⟨x, p⟩, s₂, hname, hb⟩ := bind_ok hrun
    obtain ⟨y, s₂', hname', hq⟩ := hq.of_const_bind
    cases hname.symm.trans hname'
    obtain ⟨aside, hmono, haside⟩ :=
      (h x p).through (fun q hq ↦ hasked q (.behind hname hq)) hq hanswer hb
    refine ⟨aside, hmono, fun w ↦ ?_⟩
    obtain ⟨hto, hfrom⟩ := haside w
    have hread := tally_variableName hname (.all o w)
    constructor <;> omega

theorem declare {v : Variable} {x : String} {p : Span} (hname : v.name = x) (hspan : v.span = p) :
    Carries o rec (o.cost x p) fun _ ↦ declare v := by
  subst hname hspan
  exact .const (.declare v) (.declare v)

theorem declare_frozen {v : Variable} (hv : v.isFrozen) :
    Carries o rec 0 fun _ ↦ Analysis.declare v :=
  .const (.declare v) (.declare_frozen hv)

theorem emit (op : Opcode) : Carries o rec 0 fun _ ↦ emit op := .const (.emit op) (.assemble _)

theorem emitNumber (n : Nat) : Carries o rec 0 fun _ ↦ emitNumber n :=
  .const (.emitNumber n) (.emitNumber n)

theorem newSlot (span : Span) : Carries o rec 0 fun _ ↦ newSlot Γ span :=
  .const .newSlot (.newSlot _ _)

theorem require (condition : Bool) (cause : Cause) (span : Span) :
    Carries o rec 0 fun _ ↦ require condition cause span :=
  .const (.require _ _) (.require _ _ _)

theorem requireUndeclared (x : String) (span : Span) :
    Carries o rec 0 fun _ ↦ requireUndeclared x span :=
  .const (.requireUndeclared _) (.requireUndeclared _ _)

theorem operand (hrec : rec.GoesOnward) : Carries o rec 0 fun r ↦ operand Γ r :=
  .bind (.step (.reading .next)) fun _ ↦ .call hrec

theorem operandFitting (hrec : rec.GoesOnward) (expected : Ty) :
    Carries o rec 0 fun r ↦ operandFitting Γ r expected :=
  .bind (.step (.reading .next)) fun _ ↦ .bind (.call hrec) fun _ ↦
    .bind (.require _ _ _) fun _ ↦ .pure _

/-- A value is stored for a variable, which is declared behind it. -/
theorem introduce (hrec : rec.GoesOnward) (x : String) (p : Span) :
    Carries o rec (o.cost x p) fun r ↦ storeNew Γ r x p >>= Analysis.declare := by
  simp only [storeNew, bind_assoc, pure_bind]
  exact .bind (.emit _) fun _ ↦ .bind (.newSlot _) fun _ ↦ .bind (.emitNumber _) fun _ ↦
    .bind (.operand hrec) fun _ ↦ .declare rfl rfl

theorem introduce_frozen (hrec : rec.GoesOnward) (x : String) (p : Span) :
    Carries o rec 0 fun r ↦ storeNew Γ r x p >>= fun v ↦ Analysis.declare v.frozen := by
  simp only [storeNew, bind_assoc, pure_bind]
  exact .bind (.emit _) fun _ ↦ .bind (.newSlot _) fun _ ↦ .bind (.emitNumber _) fun _ ↦
    .bind (.operand hrec) fun _ ↦ .declare_frozen rfl

theorem mono (h : Carries o rec n m) (hle : n ≤ n') : Carries o rec n' m where
  traverses := h.traverses
  run hasked hrun T := Nat.le_trans (h.run hasked hrun T) (Nat.add_le_add_left hle _)
  through hasked hq hanswer hrun := by
    obtain ⟨aside, hmono, haside⟩ := h.through hasked hq hanswer hrun
    refine ⟨aside, hmono, fun w ↦ ⟨Nat.le_trans (haside w).1 ?_, (haside w).2⟩⟩
    exact Nat.add_le_add_left hle _

theorem emitAccess (storage : Storage) (action : Access) (slot : Nat) :
    Carries o rec 0 fun _ ↦ emitAccess storage action slot :=
  .const (.emitAccess _ _ _) (.emitAccess _ _ _)

/-- What an assignment does once the writing is noted. -/
theorem behind_overwrite (hrec : rec.GoesOnward) (x : String) (found : Storage × Variable) :
    Carries o rec 0 fun r ↦ (do
      Analysis.emitAccess found.1 .store found.2.slot
      let _ ← Analysis.operandFitting Γ r found.2.type
      modifyEnvironment (·.update x Variable.settle)
      return .nothingness : Analysis Ty) := by
  refine .bind (.emitAccess _ _ _) fun _ ↦ .bind (.operandFitting hrec _) fun _ ↦
    .bind (.const (.modifyEnvironment _) (.sheds fun e ↦ ?_)) fun _ ↦ .pure _
  exact .update fun v _ ↦ .settle v

theorem declareVariable : Carries o rec 0 fun _ ↦ declareVariable Γ := by
  refine .naming fun x p ↦ .bind (.requireUndeclared _ _) fun _ ↦
    .bind (.step (.reading (Γ.catalogue.composed_annotated _ _ _))) fun t ↦
    .bind (.newSlot _) fun slot ↦ .bind_rest (.declare ?_ ?_) fun _ ↦ .pure _
  · split <;> rfl
  · split <;> rfl

theorem assign (hrec : rec.GoesOnward) : Carries o rec 0 fun r ↦ assign Γ r := by
  simp only [assign_eq]
  refine .naming fun x p ↦ .bind (.const (.overwrite x p) (.overwrite x p)) fun found? ↦ ?_
  cases found? with
  | none => exact .bind_rest (.introduce hrec x p) fun _ ↦ .pure _
  | some found => exact (behind_overwrite hrec x found).mono (Nat.zero_le _)

theorem declareFrozen (hrec : rec.GoesOnward) : Carries o rec 0 fun r ↦ declareFrozen Γ r := by
  refine .naming fun x p ↦ .mono ?_ (Nat.zero_le _)
  refine .bind (.requireUndeclared _ _) fun _ ↦ ?_
  have hdeclared := (introduce_frozen (Γ := Γ) (o := o) hrec x p).bind_rest fun _ ↦
    .pure Ty.nothingness
  simpa only [bind_assoc] using hdeclared

theorem condition (hrec : rec.GoesOnward) : Carries o rec 0 fun r ↦ condition Γ r := by
  refine .bind (.const (.accepts _) (.accepts _)) fun _ ↦ .ite (.naming fun x p ↦ .mono ?_
    (Nat.zero_le _)) (.bind (.operandFitting hrec _) fun _ ↦ .pure _)
  exact .bind (.requireUndeclared _ _) fun _ ↦ .bind (.emit _) fun _ ↦ .bind (.newSlot _) fun _ ↦
    .bind (.emitNumber _) fun _ ↦ .bind (.step .here) fun _ ↦ .bind (.operand hrec) fun _ ↦
    .bind (.require _ _ _) fun _ ↦ .declare_frozen rfl

theorem inScope {m : Recursion → Analysis α} (h : Carries o rec 0 m) :
    Carries o rec 0 fun r ↦ inScope Γ (m r) := by
  simp only [Composed.inScope_eq]
  exact .bind (.step .enterScope) fun _ ↦ .bind h fun _ ↦ .bind (.step (.leaveScope _)) fun _ ↦
    .pure _

theorem inBlock {m : Recursion → Analysis Unit} (h : Carries o rec 0 m) (withFields : Bool) :
    Carries o rec 0 fun r ↦ inBlock withFields (m r) :=
  .bind (.const (.enterBlock _) (.enterBlock _)) fun _ ↦ .bind h fun _ ↦
    .const (.leaveBlock _) (.leaveBlock _)

theorem forIn (hrec : rec.GoesOnward) (span : Span)
    (h : Carries o rec 0 fun r ↦ conditionalBlock Γ r) :
    Carries o rec 0 fun r ↦ forIn Γ r span := by
  refine .bind (.step .reserve) fun _ ↦ .naming fun x p ↦ .mono ?_ (Nat.zero_le _)
  refine .bind (.inScope ?_) fun _ ↦ .pure _
  exact .bind (.newSlot _) fun _ ↦ .bind (.emitNumber _) fun _ ↦ .bind (.newSlot _) fun _ ↦
    .bind (.emitNumber _) fun _ ↦ .bind (.operandFitting hrec _) fun _ ↦
    .bind (.const (.demand _ _) (.demand _ _ _)) fun _ ↦
    .bind (.const (.filling Assembler.preserves_fillOpcode?) (.filling _)) fun _ ↦
    .bind (.declare_frozen rfl) fun _ ↦ h

theorem readVariable (x : String) (span : Span) :
    Carries o rec 0 fun _ ↦ readVariable x span :=
  .bind (.const (.resolve? _) (.bind .get fun _ ↦ .pure _)) fun _ ↦
    .bind (.const (.demand _ _) (.demand _ _ _)) fun _ ↦
    .bind (.const (.lift _) (.lift _)) fun _ ↦ .bind (.emitAccess _ _ _) fun _ ↦ .pure _

end Carries

/-- **Whatever is put together from steps and expressions** does not raise the number. -/
theorem Composed.carries {α : Type} {W : Construct → Prop} {o : Origin} {rec : Recursion}
    {m : Recursion → Analysis α} (hrec : rec.GoesOnward) (h : Composed W m) :
    Carries o rec 0 m := by
  induction h with
  | step h => exact .step h
  | bind _ _ ih ih' => exact ih.bind ih'
  | expression Γ hint =>
    exact .bind (.step (.reading .next)) fun _ ↦ .ite (.pure _)
      (.bind (.const (.modifyFrame _) (.modifyFrame _)) fun _ ↦ .bind (.call hrec) fun _ ↦ .pure _)
  | inBlock _ _ ih => exact ih.inBlock _
  | readVariable => exact .readVariable _ _
  | stepVariable Γ construct h hc hw =>
    exact .const (Traverses.composed hrec (.stepVariable Γ construct h hc hw)).onward
      (.stepVariable _ _)
  | declareVariable => exact .declareVariable
  | assign => exact .assign hrec
  | declareFrozen => exact .declareFrozen hrec
  | condition => exact .condition hrec
  | forIn _ _ _ _ ih => exact .forIn hrec _ ih

end Pictograph
