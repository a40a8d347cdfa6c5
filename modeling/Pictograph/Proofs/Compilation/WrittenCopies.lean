import Pictograph.Proofs.Analysis.ClosureCandidates
import Pictograph.Proofs.Analysis.Introductions

/-!
# Recommended variables that are written

A variable that is written to is no candidate any more. So a body that recommends to freeze a
variable did not write to it, where the variable itself is in reach. It may have written to a copy
that a closure took over, and a closure is the only place where that happens.

## Main definitions

* `Session.Recommends`: a session recommends to freeze a variable that another one did not.
* `Query.Captures`: a closure takes over a copy of a variable.

## Main results

* `ReachedIn.conserves`: no expression of a body raises the number.
* `Query.tally_lt`: an expression that writes to a variable lowers it.
* `ReachedIn.captured_of_overwrites`: a recommended variable is only written in closures that take
  over copies of it.
-/

namespace Pictograph

open Analysis

/-- From one session to another the recommendation to freeze a variable is given. -/
def Session.Recommends (session session' : Session) (o : Origin) : Prop :=
  ∃ added, session'.warnings = session.warnings ++ added ∧ o.recommendation ∈ added

/-- A closure takes over a copy of a variable. -/
structure Query.Captures (q : Query) (o : Origin) : Prop where
  asksFor : q.token.asksFor .blockOpen
  visible : ∃ v ∈ q.state.environment.visible, v.comesFrom o

/-! ## Expressions -/

namespace Query

variable {o : Origin} {n : Nat} {q q' : Query} {t t' : Ty} {s s' : State}

/-- **An expression does not raise the number**, if those inside it do not. -/
theorem conserves (hslots : ∀ v, q.state.environment.Holds .frame v →
      v.slot < q.state.frame.slotCount)
    (hasked : ∀ q', Asks (Analysis.expression n)
      (fun r ↦ Analysis.expressionStep r q.setting q.token q.hint) q.state q' →
      (Analysis.expression n).Conserves o q') : (Analysis.expression (n + 1)).Conserves o q := by
  intro t s hanswer T
  have hrec := Analysis.goesOnward_expression n
  cases hclosure : q.token.asksFor .blockOpen with
  | false =>
    have hcomposed := composed_expressionStep (Γ := q.setting) (W := fun _ ↦ True) hclosure
      (fun _ _ ↦ trivial) q.hint
    exact (hcomposed.carries hrec).run hasked hanswer T
  | true =>
    rw [answer_of_asksFor hclosure nofun] at hanswer
    exact tally_closure hrec hanswer (fun q' hq' ↦ hasked q' (.of_begun hclosure nofun hq'))
      hslots T

/-- **An expression passes through those inside it**, unless it is a closure that takes over a copy
of the variable. -/
theorem passes (hcaptures : ¬ q.Captures o)
    (hasked : ∀ q', Asks (Analysis.expression n)
      (fun r ↦ Analysis.expressionStep r q.setting q.token q.hint) q.state q' →
      (Analysis.expression n).Conserves o q')
    (hq : Asks (Analysis.expression n)
      (fun r ↦ Analysis.expressionStep r q.setting q.token q.hint) q.state q')
    (hanswer : (Analysis.expression (n + 1)).answer q = .ok t s)
    (hanswer' : (Analysis.expression n).answer q' = .ok t' s') :
    PassesThrough o 0 q.state q'.state s' s := by
  have hrec := Analysis.goesOnward_expression n
  cases hclosure : q.token.asksFor .blockOpen with
  | false =>
    have hcomposed := composed_expressionStep (Γ := q.setting) (W := fun _ ↦ True) hclosure
      (fun _ _ ↦ trivial) q.hint
    exact (hcomposed.carries hrec).through hasked hq hanswer' hanswer
  | true =>
    have hfree (u : Variable) (hu : u ∈ q.begun.environment.visible) : u.comesFrom o = false :=
      Bool.eq_false_iff.mpr fun hfrom ↦ hcaptures ⟨hclosure, u, hu, hfrom⟩
    rw [answer_of_asksFor hclosure nofun] at hanswer
    exact passes_closure hrec hanswer (fun q' hq' ↦ hasked q' (.of_begun hclosure nofun hq')) hfree
      (hq.begun hclosure nofun) hanswer'

/-- The variable that is written to comes from the origin. -/
theorem Overwrites.exists_resolve? (h : q.Overwrites o) :
    ∃ v, q.state.environment.resolve? o.name = some (.frame, v) ∧ v.comesFrom o := by
  obtain ⟨v, hv, hspan⟩ := h.resolved
  have hfind := List.find?_some (Environment.resolve?_eq_some.mp hv).1
  exact ⟨v, hv, Variable.comesFrom_iff.mpr ⟨beq_iff_eq.mp hfind, hspan⟩⟩

/-- The name that is read is that of the variable. -/
theorem Overwrites.of_variableName (h : q.Overwrites o) {x : String} {p : Span}
    (hname : variableName q.begun = .ok (x, p) s) :
    x = o.name ∧ s.environment = q.state.environment
      ∧ s.tally (.all o true) ≤ q.state.tally (.all o true) := by
  obtain ⟨u, hpeek, hu⟩ := h.named
  have hread := tally_variableName hname (.all o true)
  have hle : s.tally (.all o true) ≤ q.begun.tally (.all o true) := by omega
  obtain ⟨u', d, hadvance, hu', rfl, rfl⟩ := exists_advance_of_variableName hname
  cases hpeek.symm.trans (Replacement.peek_of_advance hadvance)
  exact ⟨Option.some.inj (hu'.symm.trans hu), rfl, hle⟩

/-- Stepping a counter lowers the number. -/
theorem Overwrites.tally_lt_of_stepVariable (h : q.Overwrites o) {asked : Construct}
    {action : Access} (hrun : stepVariable q.setting asked action q.begun = .ok t s) :
    s.tally (.all o false) < q.state.tally (.all o true) := by
  obtain ⟨v, hv, hfrom⟩ := h.exists_resolve?
  obtain ⟨x, p, s₁, st, v', w, hname, hx, hw, haccess⟩ := stepVariable_ok hrun
  obtain ⟨rfl, henvironment, hle⟩ := h.of_variableName hname
  cases hx.symm.trans (henvironment ▸ hv)
  have hwrite := tally_write hx hw hfrom
  have hrest := Raises.emitAccess (o := o) .frame action v.slot _ _ _ haccess (.all o false)
  omega

/-- An assignment lowers the number, if the expressions inside it do not raise it. -/
theorem Overwrites.tally_lt_of_assign (h : q.Overwrites o)
    (hasked : ∀ q', Asks (Analysis.expression n) (fun r ↦ assign q.setting r) q.begun q' →
      (Analysis.expression n).Conserves o q')
    (hrun : assign q.setting (Analysis.expression n) q.begun = .ok t s) :
    s.tally (.all o false) < q.state.tally (.all o true) := by
  obtain ⟨v, hv, hfrom⟩ := h.exists_resolve?
  rw [assign_eq] at hrun
  obtain ⟨⟨x, p⟩, s₁, hname, hrun⟩ := bind_ok hrun
  obtain ⟨rfl, henvironment, hle⟩ := h.of_variableName hname
  obtain ⟨found?, s₂, hoverwrite, hrun⟩ := bind_ok hrun
  obtain ⟨rfl, hfound⟩ := overwrite_ok hoverwrite
  have hx : s₁.environment.resolve? o.name = some (.frame, v) := henvironment ▸ hv
  rcases hfound with ⟨hnone, -⟩ | ⟨st, v', w, hsome, hw, rfl⟩
  · cases hx.symm.trans hnone
  cases hx.symm.trans hsome
  have hwrite := tally_write hx hw hfrom
  have hbehind (q' : Query) (hq' : Asks (Analysis.expression n) (fun r ↦ (do
        emitAccess .frame .store v.slot
        let _ ← operandFitting q.setting r v.type
        modifyEnvironment (·.update o.name Variable.settle)
        return .nothingness : Analysis Ty))
        { s₁ with environment := s₁.environment.update o.name fun _ ↦ w } q') :
      (Analysis.expression n).Conserves o q' := by
    refine hasked q' ?_
    simp only [assign_eq]
    refine .behind hname (.behind hoverwrite ?_)
    rw [hx]
    exact hq'
  rw [hx] at hrun
  have hrest := (Carries.behind_overwrite (Analysis.goesOnward_expression n) o.name
    (.frame, v)).run hbehind hrun (.all o false)
  omega

/-- **An expression that writes to a variable** lowers the number. -/
theorem tally_lt (h : q.Overwrites o)
    (hasked : ∀ q', Asks (Analysis.expression n)
      (fun r ↦ Analysis.expressionStep r q.setting q.token q.hint) q.state q' →
      (Analysis.expression n).Conserves o q')
    (hanswer : (Analysis.expression (n + 1)).answer q = .ok t s) :
    s.tally (.all o false) < q.state.tally (.all o true) := by
  rcases Token.asksFor_of_writes h.writes with hasks | hasks | hasks
  all_goals rw [answer_of_asksFor hasks nofun] at hanswer
  · exact h.tally_lt_of_assign (fun q' hq' ↦ hasked q' (.of_begun hasks nofun hq')) hanswer
  · exact h.tally_lt_of_stepVariable hanswer
  · exact h.tally_lt_of_stepVariable hanswer

end Query

/-! ## Bodies -/

section

variable {cat : Catalogue} {options : Options} {session session' : Session} {c : Class}
  {m : Member} {tokens : List Token} {record : Record} {o : Origin} {n : Nat} {q : Query}
  {t : Ty} {s : State}

/-- **No expression of a body raises the number.** -/
theorem ReachedIn.conserves (h : ReachedIn cat options session c m tokens n q) :
    (Analysis.expression n).Conserves o q := by
  induction n generalizing q with
  | zero =>
    intro t s hanswer
    cases hanswer
  | succ n ih => exact q.conserves h.distinct.lt fun q' hq' ↦ ih (h.nested hq')

/-- An accepted body passes through its expressions, but for those in closures that take over a copy
of the variable. -/
theorem ReachedIn.passes_or_captured (h : ReachedIn cat options session c m tokens n q)
    {fields : Option Scope} {summary : Summary} {ending : State}
    (hfields : cat.fieldsFor c m = .ok fields)
    (hbody : analyse (.ofMember cat options c m) m.arguments fields session tokens
      = .ok summary ending)
    (hanswer : (Analysis.expression n).answer q = .ok t s) :
    PassesThrough o 0 (.start fields session tokens) q.state s
        { ending with environment := .start ending.environment.fields }
      ∨ ∃ n₁ q₁, ReachedIn cat options session c m tokens n₁ q₁ ∧ q₁.Captures o
        ∧ q₁.Leads n₁ n q := by
  obtain ⟨hnative, fields', hfields', hq⟩ := h
  cases hfields.symm.trans hfields'
  have hreached {n : Nat} {q : Query} (hq : Reaches
      (fun rec ↦ Analysis.body (.ofMember cat options c m) rec m.arguments [] 0) tokens.length
      (.start fields session tokens) n q) : ReachedIn cat options session c m tokens n q :=
    ⟨hnative, fields, hfields, hq⟩
  induction hq generalizing t s with
  | asked hq =>
    have hstart : (State.start fields session tokens).environment = .start fields := rfl
    exact .inl (passes_body (Analysis.goesOnward_expression _) hstart hbody
      (fun q' hq' ↦ (hreached (.asked hq')).conserves) (fun u hu ↦ nomatch hu) hq hanswer)
  | @nested n q q' h hq ih =>
    obtain ⟨t₁, s₁, hanswer₁⟩ := h.answered hbody
    by_cases hcaptures : q.Captures o
    · exact .inr ⟨n + 1, q, hreached h, hcaptures, n, rfl, .asked hq⟩
    rcases ih hanswer₁ with hpasses | ⟨n₁, q₁, hq₁, hcaptures₁, k, hk, hleads⟩
    · refine .inl (hpasses.trans ?_)
      exact q.passes hcaptures (fun q' hq' ↦ (hreached (h.nested hq')).conserves) hq hanswer₁
        hanswer
    · exact .inr ⟨n₁, q₁, hq₁, hcaptures₁, k, hk, .nested hleads hq⟩

/-- **A recommended variable is only written in closures that take over a copy of it.** -/
theorem ReachedIn.captured_of_overwrites (h : ReachedIn cat options session c m tokens n q)
    (hcompile : compile cat options session c m tokens = (.ok record, session'))
    (hplaces : tokens.countP o.isNamedBy ≤ 1) (hrecommends : session.Recommends session' o)
    (hoverwrites : q.Overwrites o) :
    ∃ n₁ q₁, ReachedIn cat options session c m tokens n₁ q₁ ∧ q₁.Captures o ∧ q₁.Leads n₁ n q := by
  obtain ⟨t, s, hanswer⟩ := h.answered hcompile
  obtain ⟨fields, summary, ending, hfields, hbody, -, rfl⟩ := (compile_ok_iff h.1).mp hcompile
  refine (h.passes_or_captured (o := o) hfields hbody hanswer).resolve_left ?_
  rintro ⟨aside, hmono, haside⟩
  have hlt : s.tally (.all o false) < q.state.tally (.all o true) := by
    cases n with
    | zero => cases hanswer
    | succ n => exact q.tally_lt hoverwrites (fun q' hq' ↦ (h.nested hq').conserves) hanswer
  -- one name stands in the body, so it recommends the variable once at most
  have hto := (haside true).1
  have hfrom := (haside false).2
  have hstart : (State.start fields session tokens).tally (.all o true)
      = session.warnings.count o.recommendation + tokens.countP o.isNamedBy :=
    State.tally_of_start rfl
  have hend : State.tally (.all o false)
      { ending with environment := .start ending.environment.fields }
      = ending.session.warnings.count o.recommendation + ending.cursor.after.countP o.isNamedBy :=
    State.tally_of_start rfl
  obtain ⟨added, hadded, hmem⟩ := hrecommends
  have hcount : ending.session.warnings.count o.recommendation
      = session.warnings.count o.recommendation + added.count o.recommendation := by
    rw [hadded, Array.count_append]
  have hpositive : 0 < added.count o.recommendation := Array.count_pos_iff.mpr hmem
  omega

end

end Pictograph
