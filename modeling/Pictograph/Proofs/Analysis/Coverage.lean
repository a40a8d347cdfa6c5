import Pictograph.Proofs.Analysis.Emission
import Pictograph.Proofs.Code.Run

/-!
# Which slots have a value in a run

A slot is covered in a run once an event of the run has given it a value. The counters of the
analysis are sound for coverage, with two exceptions that its rules have: what a condition of a
later branch or the body of a closure writes counts even if it is left out, and an assignment may
count for another slot than the one it writes. Both are events of a run here, so that coverage says
which of the values are real.

## Main definitions

* `Event.Gives`: an event gives a value to a slot, or counts as doing so.
* `Covers`: all variables that a context takes to have a value are covered.
* `Safe`: every variable that is read in a run is covered by what happened before.

## Main results

* `Emits.sound`: runs of emitted code are safe, and the counters behind it are right.
* `Emits.safe_closures`: so are the runs of the closures in it.
-/

namespace Pictograph

/-! ## Coverage -/

/-- An instruction gives a value to a slot. -/
def Instruction.Binds (i : Instruction) (slot : Slot) : Prop :=
  i.words.head? = some (UInt32.ofNat slot.id)
    ∧ (i.op = .access slot.storage .store
      ∨ slot.storage = .frame ∧ (i.op = .conditionalBind ∨ ∃ overList, i.op = .forIn overList))

/-- An event gives a value to a slot, or counts as doing so. A closure does not reach the frame of
the code around it. -/
def Event.Gives (π : Pins) (e : Event) (slot : Slot) : Prop :=
  ∃ l ∈ e.located, (slot.storage = .object ∨ l.inClosure = false)
    ∧ (l.toInstruction.Binds slot ∨ π.strays l.offset slot)

/-- The slots that have a value after some events, if those in `S` had one before. -/
def after (π : Pins) (S : Slot → Prop) (τ : List Event) (slot : Slot) : Prop :=
  S slot ∨ ∃ e ∈ τ, e.Gives π slot

/-- In a run an instruction that binds a slot was executed. -/
def BoundIn (τ : List Event) (slot : Slot) : Prop := ∃ i, .done i ∈ τ ∧ i.Binds slot

/-- In a run an instruction that binds a slot was left out, in the condition of a branch or, for a
field, also in a closure. -/
def PassedIn (τ : List Event) (slot : Slot) : Prop :=
  ∃ code, .passed code ∈ τ ∧ ∃ l ∈ code, (slot.storage = .object ∨ l.inClosure = false)
    ∧ l.toInstruction.Binds slot

/-- In a run there is an assignment that counts for a slot without binding it. -/
def StrayedIn (π : Pins) (τ : List Event) (slot : Slot) : Prop :=
  ∃ e ∈ τ, ∃ l ∈ e.located, (slot.storage = .object ∨ l.inClosure = false)
    ∧ π.strays l.offset slot

section

variable {π : Pins} {S : Slot → Prop} {τ τ' : List Event} {slot : Slot}

theorem after_of (h : S slot) : after π S τ slot := .inl h

/-- A slot that counts as one with a value had one before, was bound, or is an exception. -/
theorem cases_of_after (h : after π S τ slot) :
    S slot ∨ BoundIn τ slot ∨ PassedIn τ slot ∨ StrayedIn π τ slot := by
  rcases h with h | ⟨e, he, l, hl, hc, hb | hs⟩
  · exact .inl h
  · cases e with
    | done i =>
      obtain rfl := List.mem_singleton.mp hl
      exact .inr (.inl ⟨i, he, hb⟩)
    | passed code => exact .inr (.inr (.inl ⟨code, he, l, hl, hc, hb⟩))
  · exact .inr (.inr (.inr ⟨e, he, l, hl, hc, hs⟩))

@[simp] theorem after_append : after π S (τ ++ τ') slot ↔ after π (after π S τ) τ' slot := by
  simp only [after, List.mem_append, or_and_right, exists_or, or_assoc]

/-- An event that was executed gives values at once. -/
theorem after_done {i : Instruction} (h : i.Binds slot ∨ π.strays i.offset slot) :
    after π S [.done i] slot :=
  .inr ⟨_, List.mem_singleton_self _, _, List.mem_singleton_self _, .inr rfl, h⟩

/-- What happens in a run of some code also counts if the code is left out. -/
theorem after_passed {survey : List Located} (h : OccursIn τ survey)
    (hs : after π S τ slot) : after π S [.passed survey] slot := by
  rcases hs with hs | ⟨e, he, l, hl, hc, hg⟩
  · exact .inl hs
  · obtain ⟨l', hm, hi, hcl⟩ := h e he l hl
    refine .inr ⟨_, List.mem_singleton_self _, l', hm, ?_, ?_⟩
    · rwa [hcl]
    · rwa [hi]

/-- What a closure does to the fields also counts if the closure is not invoked. -/
theorem after_closure {survey : List Located} {id : Nat} (e : Event) (h : OccursIn τ survey)
    (hs : after π (fun slot ↦ slot.storage = .frame ∨ S slot) τ ⟨.object, id⟩) :
    after π S [e, .passed (survey.map (·.enterClosure))] ⟨.object, id⟩ := by
  rcases hs with (hs | hs) | ⟨e', he, l, hl, -, hg⟩
  · cases hs
  · exact .inl hs
  · obtain ⟨l', hm, hi, -⟩ := h e' he l hl
    refine .inr ⟨_, List.mem_cons_of_mem _ (List.mem_singleton_self _), l'.enterClosure,
      List.mem_map_of_mem hm, .inl rfl, ?_⟩
    rwa [← hi] at hg

theorem after_passed_append {survey survey' : List Located}
    (hs : after π (after π S [.passed survey]) [.passed survey'] slot) :
    after π S [.passed (survey ++ survey')] slot := by
  rcases hs with (hs | ⟨e, he, l, hl, h⟩) | ⟨e, he, l, hl, h⟩
  · exact .inl hs
  · obtain rfl := List.mem_singleton.mp he
    exact .inr ⟨_, List.mem_singleton_self _, l, List.mem_append_left _ hl, h⟩
  · obtain rfl := List.mem_singleton.mp he
    exact .inr ⟨_, List.mem_singleton_self _, l, List.mem_append_right _ hl, h⟩

end

/-- All variables that an environment takes to have a value are covered. Optional variables need no
value. -/
def Covers (S : Slot → Prop) (e : Environment) : Prop :=
  ∀ st v, e.Holds st v → v.isReady → v.type.isOptional ∨ S ⟨st, v.slot⟩

namespace Covers

variable {S S' : Slot → Prop} {e e' : Environment} {lo hi : Nat}

theorem mono (h : Covers S e) (hs : ∀ slot, S slot → S' slot) : Covers S' e :=
  fun st v hv hr ↦ (h st v hv hr).imp_right (hs _)

/-- Values last. -/
theorem after {π : Pins} {τ : List Event} (h : Covers S e) : Covers (after π S τ) e :=
  h.mono fun _ ↦ after_of

theorem append {π : Pins} {τ τ' : List Event}
    (h : Covers (Pictograph.after π (Pictograph.after π S τ) τ') e) :
    Covers (Pictograph.after π S (τ ++ τ')) e :=
  h.mono fun _ ↦ after_append.mpr

theorem push (h : Covers S e) : Covers S (e.push .empty) :=
  fun st v hv ↦ h st v (Environment.holds_push.mp hv)

theorem leave (h : Covers S e) : Covers S e.leave :=
  fun st v hv ↦ h st v (Environment.holds_of_leave hv)

/-- Entering a conditional block gives no variable a value. -/
theorem enter {withFields : Bool} (h : Covers S e) : Covers S (e.shift 1 withFields) := by
  intro st v' hv hr
  by_cases hst : st = .frame ∨ withFields
  · obtain ⟨v, hw, rfl⟩ := Environment.holds_of_shift hv hst
    rw [Variable.shift_slot, Variable.shift_type]
    refine h st v hw (Variable.isReady_iff.mpr ?_)
    rw [Variable.isReady_iff, Variable.shift_readiness] at hr
    split at hr <;> omega
  · cases st with
    | frame => exact absurd (.inl rfl) hst
    | object =>
      obtain rfl : withFields = false := by simpa using hst
      exact h .object v' hv hr

/-- Behind a conditional block nothing has a value that had none in front of it. -/
theorem block {withFields : Bool} (h : Covers S e)
    (hw : withFields ∨ ∀ id, S ⟨.object, id⟩)
    (hg : (e.shift 1 withFields).Grows lo hi e') : Covers S (e'.shift (-1) withFields) := by
  intro st v' hv hr
  by_cases hst : st = .frame ∨ withFields
  · obtain ⟨v, hv, hr, he⟩ := hg.ready_of_shift hv hr hst
    rw [he.slot, he.type]
    exact h st v hv hr
  · cases st with
    | frame => exact absurd (.inl rfl) hst
    | object => exact .inr (hw.resolve_left (fun hw ↦ hst (.inr hw)) _)

/-- A change of a variable is covered if the variable is. -/
theorem update {x : String} {f : Variable → Variable} (h : Covers S e)
    (hf : ∀ st v, e.resolve? x = some (st, v) → (f v).isReady →
      (f v).type.isOptional ∨ S ⟨st, (f v).slot⟩) : Covers S (e.update x f) := by
  intro st v' hv hr
  rcases Environment.holds_of_update hv with hv | ⟨v, hx, rfl⟩
  · exact h st v' hv hr
  · exact hf st v hx hr

/-- Writing a variable gives it no value before the new one is there. -/
theorem mutate {x : String} {st : Storage} {v mutated : Variable} {span : Span} (h : Covers S e)
    (hx : e.resolve? x = some (st, v)) (hm : v.mutate span = .ok mutated) :
    Covers S (e.update x fun _ ↦ mutated) := by
  refine h.update fun st' v' hx' hr ↦ ?_
  rw [hx] at hx'
  cases hx'
  have he := Variable.mutate_evolves hm
  rw [Variable.mutate_isReady hm] at hr
  rw [he.type, he.slot]
  exact h st v (Environment.holds_of_resolve? hx) hr

theorem declare {v : Variable} (h : Covers S e) (hd : e.declare v = .ok e')
    (hv : v.isReady → v.type.isOptional ∨ S ⟨.frame, v.slot⟩) : Covers S e' := by
  intro st w hw hr
  rcases Environment.holds_of_declare hd hw with hw | ⟨rfl, rfl⟩
  · exact h st w hw hr
  · exact hv hr

/-- A variable that a loop runs over is not needed behind the loop. -/
theorem loop {c c₁ c₂ : Context} {v : Variable} {withFields : Bool}
    (h : Covers S c₁.environment) (hd : c₁.environment.declare v = .ok e)
    (hw : withFields ∨ ∀ id, S ⟨.object, id⟩)
    (hlt : ∀ w, c.environment.Holds .frame w → w.slot < v.slot)
    (hg₁ : c.enterScope.Grows (c₁.withEnvironment e))
    (hg₂ : ((c₁.withEnvironment e).enterBlock withFields).Grows c₂) :
    Covers S (c₂.leaveBlock withFields).leaveScope.environment := by
  have hS : Covers (fun slot ↦ S slot ∨ slot = ⟨.frame, v.slot⟩) e :=
    (h.mono fun _ ↦ .inl).declare hd fun _ ↦ .inr (.inr rfl)
  have hc := (hS.block (hw.imp_right fun h id ↦ .inl (h id)) hg₂.environment).leave
  intro st w hv hr
  rcases hc st w hv hr with ho | hs | heq
  · exact .inl ho
  · exact .inr hs
  · obtain ⟨rfl, hslot⟩ := Slot.mk.inj heq
    obtain ⟨u, hu, he⟩ := (hg₁.trans hg₂.block).environment.holds_of_leave hv
    have hslot' := he.slot
    have hlt' := hlt u hu
    omega

/-- Slots may be settled that are covered. -/
theorem foldl_settle {slots : List Slot} (h : Covers S e)
    (hs : ∀ slot ∈ slots, ∀ v, e.Holds slot.storage v → v.slot = slot.id →
      v.type.isOptional ∨ S slot) : Covers S (slots.foldl Environment.settle e) := by
  induction slots generalizing e with
  | nil => exact h
  | cons slot slots ih =>
    refine ih ?_ ?_
    · intro st v' hv hr
      rcases Environment.holds_of_settle hv with hv | ⟨rfl, hid, v, hv, he⟩
      · exact h st v' hv hr
      · rw [hid, he.type]
        exact hs slot List.mem_cons_self v hv (he.slot.symm.trans hid)
    · intro slot' hm v' hv hid
      have hg : e.Grows 0 0 (e.settle slot) := Environment.grows_settle slot
      rcases hg.holds hv with ⟨v, hv, he⟩ | ⟨-, -, hlt, -⟩
      · rw [he.type]
        exact hs slot' (List.mem_cons_of_mem _ hm) v hv (he.slot.symm.trans hid)
      · exact absurd hlt (Nat.not_lt_zero _)

end Covers

/-! ## Safety -/

/-- An instruction uses the value of a local variable. -/
def Instruction.ReadsLocal (i : Instruction) : Prop :=
  ∃ action, action ≠ .store ∧ i.op = .access .frame action

/-- The variable that an instruction reads is covered. -/
def Covered (π : Pins) (S : Slot → Prop) (i : Instruction) : Prop :=
  ∃ v, π.reads i.offset .frame v ∧ i.words = [UInt32.ofNat v.slot]
    ∧ (v.type.isOptional ∨ S ⟨.frame, v.slot⟩)

/-- Every local variable that is read in a run is covered by what happened before. -/
def Safe (π : Pins) (S : Slot → Prop) (τ : List Event) : Prop :=
  ∀ before i rest, τ = before ++ .done i :: rest → i.ReadsLocal → Covered π (after π S before) i

namespace Safe

variable {π : Pins} {S S' : Slot → Prop} {τ τ' : List Event}

theorem nil : Safe π S [] := fun before _ _ h ↦ by
  cases before <;> cases h

theorem append (h : Safe π S τ) (h' : Safe π (after π S τ) τ') : Safe π S (τ ++ τ') := by
  intro before i rest he hi
  rcases List.append_eq_append_iff.mp he with ⟨l, rfl, hl⟩ | ⟨l, rfl, hl⟩
  · obtain ⟨v, hv, hw, hc⟩ := h' l i rest hl hi
    exact ⟨v, hv, hw, hc.imp_right after_append.mpr⟩
  · cases l with
    | nil =>
      obtain ⟨v, hv, hw, hc⟩ := h' [] i rest hl.symm hi
      refine ⟨v, hv, hw, hc.imp_right fun hs ↦ ?_⟩
      rw [List.append_nil] at hs
      have hs' := after_append.mpr hs
      rwa [List.append_nil] at hs'
    | cons e l =>
      cases hl
      exact h before i l rfl hi

theorem done {i : Instruction} (h : i.ReadsLocal → Covered π S i) : Safe π S [.done i] := by
  intro before i' rest he hi
  cases before with
  | nil =>
    cases he
    obtain ⟨v, hv, hw, hc⟩ := h hi
    exact ⟨v, hv, hw, hc.imp_right after_of⟩
  | cons e before => cases before <;> cases he

/-- An instruction that uses no local variable. -/
theorem silent {i : Instruction} (h : ∀ action, i.op = .access .frame action → action = .store) :
    Safe π S [.done i] :=
  .done fun ⟨action, ha, hop⟩ ↦ absurd (h action hop) ha

theorem passed (code : List Located) : Safe π S [.passed code] := by
  intro before i rest he _
  cases before with
  | nil => cases he
  | cons e before => cases before <;> cases he

end Safe

/-- A variable with a value may be read. -/
theorem covered_of_holds {π : Pins} {S : Slot → Prop} {e : Environment} {k : Nat} {st : Storage}
    {v : Variable} {action : Access} (h : Covers S e) (hv : e.Holds st v) (hr : v.isReady)
    (hπ : π.reads k st v)
    (hi : Instruction.ReadsLocal ⟨k, .access st action, [UInt32.ofNat v.slot]⟩) :
    Covered π S ⟨k, .access st action, [UInt32.ofNat v.slot]⟩ := by
  obtain ⟨_, -, ha⟩ := hi
  cases ha
  exact ⟨v, hπ, rfl, h .frame v hv hr⟩

/-! ## Soundness -/

/-- The slots of a report are covered, as far as variables with these slots are within reach. -/
def Reported (S : Slot → Prop) (e : Environment) (slots : List Slot) : Prop :=
  ∀ slot ∈ slots, ∀ v, e.Holds slot.storage v → v.slot = slot.id → v.type.isOptional ∨ S slot

/-- What a block reports is covered behind it, also after further blocks. -/
theorem Covers.reported {S : Slot → Prop} {c c' : Context} {withFields : Bool}
    (h : Covers S c.environment) (hd : c.Distinct)
    (hg : (c.leaveBlock withFields).leaveScope.Grows c') :
    Reported S c'.environment (c.environment.settledHere withFields) := by
  intro slot hs v hv hid
  obtain ⟨w, hw, hr, hwid, hst⟩ := Environment.holds_of_mem_settledHere hs
  rcases hg.environment.holds hv with ⟨v₁, hv₁, he⟩ | ⟨hf, hlo, -, -⟩
  · obtain ⟨v₂, hv₂, rfl⟩ := Environment.holds_of_shift (Environment.holds_of_leave hv₁) hst
    have hslot := he.slot
    have htype := he.type
    rw [Variable.shift_slot] at hslot
    rw [Variable.shift_type] at htype
    -- within reach a slot has one variable only
    have heq : v₂ = w := hd.eq_of_slot_eq hv₂ hw (by omega)
    rw [htype, heq]
    have hc := h slot.storage w hw hr
    rwa [hwid] at hc
  -- a variable that is new behind the block has a slot above all that could be reported
  · have hlt := hd.lt w (hf ▸ hw)
    have hlo' : c.slotCount ≤ v.slot := hlo
    omega

/-- If one of the branches is taken, what each of them reports is covered. -/
theorem Reported.inEach {S : Slot → Prop} {e : Environment} {r : List Slot}
    {reports : List (List Slot)} (h : Reported S e r) (hr : r ∈ reports) :
    Reported S e (Analysis.inEach reports) := by
  intro slot hs
  refine h slot ?_
  cases reports with
  | nil => exact absurd hr List.not_mem_nil
  | cons first rest =>
    obtain ⟨hm, hall⟩ := List.mem_filter.mp hs
    rcases List.mem_cons.mp hr with rfl | hr
    · exact hm
    · exact List.contains_iff_mem.mp (List.all_eq_true.mp hall r hr)

theorem Reported.mono {S S' : Slot → Prop} {e : Environment} {slots : List Slot}
    (h : Reported S e slots) (hs : ∀ slot, S slot → S' slot) : Reported S' e slots :=
  fun slot hm v hv hid ↦ (h slot hm v hv hid).imp_right (hs slot)

/-- What holds of the runs of a piece of code that starts with the slots in `S` and ends in a
context. -/
def Part.Sound (π : Pins) (S : Slot → Prop) (c : Context) (k : Nat) : Part → Prop
  | .code o => ∀ τ, Outline.Runs o k τ → Safe π S τ ∧ Covers (after π S τ) c.environment
  | .chain rest reports isTotal =>
    (∀ τ, Outline.Runs rest k τ → Safe π S τ ∧ Covers (after π S τ) c.environment
      ∧ (isTotal → ∃ r ∈ reports, Reported (after π S τ) c.environment r))
    ∧ Covers (after π S [.passed (Outline.conditions rest k)]) c.environment

/-- In a setting without instance there are no fields to be covered. -/
def Setting.Ignores (Γ : Setting) (S : Slot → Prop) : Prop :=
  Γ.isStatic → ∀ id, S ⟨.object, id⟩

theorem Setting.Ignores.after {Γ : Setting} {S : Slot → Prop} (h : Γ.Ignores S) (π : Pins)
    (τ : List Event) : Γ.Ignores (after π S τ) := fun hs id ↦ .inl (h hs id)

theorem Setting.Ignores.withFields {Γ : Setting} {S : Slot → Prop} (h : Γ.Ignores S) :
    (!Γ.isStatic) = true ∨ ∀ id, S ⟨.object, id⟩ := by
  cases hs : Γ.isStatic with
  | false => exact .inl rfl
  | true => exact .inr (h hs)

/-- What holds of the runs of a piece of code that leads from one context to another: if it starts
with all values that its context counts on, no variable is read too early, and the values that the
context behind it counts on are there. -/
def Part.SoundFrom (π : Pins) (Γ : Setting) (k : Nat) (c c' : Context) (part : Part) : Prop :=
  ∀ S : Slot → Prop, Γ.Ignores S → c.Distinct → Covers S c.environment → part.Sound π S c' k

/-- A condition with its block and the rest of the chain: first the condition runs, and then either
the block or the rest. -/
theorem soundFrom_branch {π : Pins} {Γ : Setting} {kc kb kr : Nat} {c c₁ c₂ c₃ : Context}
    {condition body rest : Outline} {reports : List (List Slot)} {isTotal : Bool}
    (hg₁ : c.enterScope.Grows c₁) (hg₂ : (c₁.enterBlock !Γ.isStatic).Grows c₂)
    (hg₃ : (c₂.leaveBlock !Γ.isStatic).leaveScope.Grows c₃)
    (h₁ : Part.SoundFrom π Γ kc c.enterScope c₁ (.code condition))
    (h₂ : Part.SoundFrom π Γ kb (c₁.enterBlock !Γ.isStatic) c₂ (.code body))
    (h₃ : Part.SoundFrom π Γ kr (c₂.leaveBlock !Γ.isStatic).leaveScope c₃
      (.chain rest reports isTotal))
    {S : Slot → Prop} (hΓ : Γ.Ignores S) (hd : c.Distinct) (hc : Covers S c.environment)
    {τ₁ τ₂ τ : List Event} (hτ₁ : Outline.Runs condition kc τ₁)
    (hτ : Outline.Runs body kb τ₂ ∧ τ = τ₁ ++ τ₂ ++ [.passed (Outline.conditions rest kr)]
      ∨ Outline.Runs rest kr τ₂ ∧ τ = τ₁ ++ τ₂) :
    Safe π S τ ∧ Covers (after π S τ) c₃.environment
      ∧ (isTotal → ∃ r ∈ c₂.environment.settledHere (!Γ.isStatic) :: reports,
        Reported (after π S τ) c₃.environment r) := by
  have hd₁ := (hd.enterScope.grows hg₁).enterBlock !Γ.isStatic
  have hd₂ := hd₁.grows hg₂
  have hd₃ := hd.grows (hg₁.branch hg₂)
  obtain ⟨hs₁, hc₁⟩ := h₁ S hΓ hd.enterScope hc.push τ₁ hτ₁
  have hΓ₁ := hΓ.after π τ₁
  have hc₃ : Covers (after π S τ₁) (c₂.leaveBlock !Γ.isStatic).leaveScope.environment :=
    (hc₁.block hΓ₁.withFields hg₂.environment).leave
  rcases hτ with ⟨hτ₂, rfl⟩ | ⟨hτ₂, rfl⟩
  -- the block is taken: its report is one of the reports, and the rest is passed over
  · obtain ⟨hs₂, hc₂⟩ := h₂ _ hΓ₁ hd₁ hc₁.enter τ₂ hτ₂
    obtain ⟨-, hskip⟩ := h₃ _ (hΓ₁.after π τ₂) hd₃ hc₃.after
    have hc₄ := hskip.append.append
    rw [← List.append_assoc] at hc₄
    refine ⟨(hs₁.append hs₂).append (.passed _), hc₄, fun _ ↦ ⟨_, List.mem_cons_self, ?_⟩⟩
    exact (hc₂.reported hd₂ hg₃).mono fun _ hs ↦ after_append.mpr (after_of (after_append.mpr hs))
  -- the rest is taken, and one of its own reports is covered
  · obtain ⟨hs₂, hc₂, hr⟩ := (h₃ _ hΓ₁ hd₃ hc₃).1 τ₂ hτ₂
    refine ⟨hs₁.append hs₂, hc₂.append, fun ht ↦ ?_⟩
    obtain ⟨r, hm, hr⟩ := hr ht
    exact ⟨r, List.mem_cons_of_mem _ hm, hr.mono fun _ ↦ after_append.mpr⟩

/-- If the conditions of a chain are left out, the values they would give count all the same. -/
theorem covers_of_passed {π : Pins} {Γ : Setting} {kc kr : Nat} {c c₁ c₂ c₃ : Context}
    {condition rest : Outline} {reports : List (List Slot)} {isTotal : Bool}
    (hg₁ : c.enterScope.Grows c₁) (hg₂ : (c₁.enterBlock !Γ.isStatic).Grows c₂)
    (h₁ : Part.SoundFrom π Γ kc c.enterScope c₁ (.code condition))
    (h₃ : Part.SoundFrom π Γ kr (c₂.leaveBlock !Γ.isStatic).leaveScope c₃
      (.chain rest reports isTotal))
    {S : Slot → Prop} (hΓ : Γ.Ignores S) (hd : c.Distinct) (hc : Covers S c.environment) :
    Covers (after π S [.passed (Outline.survey condition kc ++ Outline.conditions rest kr)])
      c₃.environment := by
  -- a condition that is passed over gives what any of its runs would bind
  obtain ⟨τ, hτ⟩ := Outline.exists_run condition kc
  obtain ⟨-, hc₁⟩ := h₁ S hΓ hd.enterScope hc.push τ hτ
  have hc₂ : Covers (after π S [.passed (Outline.survey condition kc)]) c₁.environment :=
    hc₁.mono fun _ ↦ after_passed (Outline.occursIn_of_runs condition hτ)
  have hΓ₁ := hΓ.after π [.passed (Outline.survey condition kc)]
  have hc₃ := (h₃ _ hΓ₁ (hd.grows (hg₁.branch hg₂))
    (hc₂.block hΓ₁.withFields hg₂.environment).leave).2
  exact hc₃.mono fun _ ↦ after_passed_append

/-- A loop that runs its block any number of times, with something in front of it each time. -/
theorem safe_rounds {π : Pins} {S : Slot → Prop} {once : List Event → Prop}
    (h : ∀ S' r, (∀ slot, S slot → S' slot) → once r → Safe π S' r) {τ : List Event}
    (hτ : Rounds once τ) : Safe π S τ := by
  -- the rounds only add to the slots with a value, so the bound is kept general
  have key : ∀ S', (∀ slot, S slot → S' slot) → Safe π S' τ := by
    refine hτ.induct (motive := fun τ ↦ ∀ S', (∀ slot, S slot → S' slot) → Safe π S' τ)
      (fun _ _ ↦ .nil) fun r τ hr ih S' hS ↦ ?_
    exact (h S' r hS hr).append (ih _ fun slot hs ↦ after_of (hS slot hs))
  exact key S fun _ ↦ id

/-- An assignment: the slot that is written has a value behind it, and so has the one that the
assignment strays to. -/
theorem soundFrom_assign {π : Pins} {Γ : Setting} {k : Nat} {c c₁ : Context} {x : String}
    {st : Storage} {v mutated : Variable} {span : Span} {o : Outline}
    (hx : c.environment.resolve? x = some (st, v)) (hm : v.mutate span = .ok mutated)
    (hstray : ∀ st' v', c₁.environment.resolve? x = some (st', v') →
      (⟨st', v'.slot⟩ : Slot) = ⟨st, v.slot⟩ ∨ π.strays k ⟨st', v'.slot⟩)
    (h : Part.SoundFrom π Γ (k + 2)
      (c.withEnvironment (c.environment.update x fun _ ↦ mutated)) c₁ (.code o)) :
    Part.SoundFrom π Γ k c (c₁.withEnvironment (c₁.environment.update x Variable.settle))
      (.code [.plain (.access st .store) [UInt32.ofNat v.slot] o]) := by
  intro S hΓ hd hc τ hτ
  obtain ⟨τ', hτ', rfl⟩ := Item.runs_plain.mp (Outline.runs_singleton.mp hτ)
  obtain ⟨hs₁, hc₁⟩ := h S hΓ (hd.grows (.mutate hx hm)) (hc.mutate hx hm) τ' hτ'
  have hb : Instruction.Binds ⟨k, .access st .store, [UInt32.ofNat v.slot]⟩ ⟨st, v.slot⟩ :=
    ⟨rfl, .inl rfl⟩
  refine ⟨hs₁.append (.silent fun action hop ↦ (Opcode.access.inj hop).2.symm), ?_⟩
  refine (hc₁.after.update fun st' v' hx' _ ↦ .inr (after_done ?_)).append
  rw [Variable.settle_slot]
  -- the name is looked up again behind the value, so it may have strayed
  rcases hstray st' v' hx' with h | h
  · exact .inl (h ▸ hb)
  · exact .inr h

/-- A loop with a condition: what the condition gives counts behind the loop, what the block gives
does not. -/
theorem soundFrom_repeatWhile {π : Pins} {Γ : Setting} {k : Nat} {c c₁ c₂ : Context}
    {condition body : Outline} (hg₁ : c.Grows c₁)
    (hg₂ : (c₁.enterScope.enterBlock !Γ.isStatic).Grows c₂)
    (h₁ : Part.SoundFrom π Γ (k + 1) c c₁ (.code condition))
    (h₂ : Part.SoundFrom π Γ (k + 2 + condition.size) (c₁.enterScope.enterBlock !Γ.isStatic) c₂
      (.code body)) :
    Part.SoundFrom π Γ k c (c₂.leaveBlock !Γ.isStatic).leaveScope
      (.code [.repeatWhile condition body]) := by
  intro S hΓ hd hc τ hτ
  obtain ⟨τ₁, τ₂, hτ₁, hτ₂, rfl⟩ := Outline.runs_singleton.mp hτ
  have hd₁ := hd.grows hg₁
  -- each round starts with all that the loop started with
  have hround (S' : Slot → Prop) (r : List Event) (hS : ∀ slot, S slot → S' slot)
      (hr : ∃ r₁ r₂, Outline.Runs condition (k + 1) r₁
        ∧ Outline.Runs body (k + 2 + Outline.size condition) r₂ ∧ r = r₁ ++ r₂) :
      Safe π S' r := by
    obtain ⟨r₁, r₂, hr₁, hr₂, rfl⟩ := hr
    have hΓ' : Γ.Ignores S' := fun hst id ↦ hS _ (hΓ hst id)
    obtain ⟨hs₁, hc₁⟩ := h₁ S' hΓ' hd (hc.mono hS) r₁ hr₁
    obtain ⟨hs₂, -⟩ := h₂ _ (hΓ'.after π r₁) (hd₁.enterScope.enterBlock _) hc₁.push.enter r₂ hr₂
    exact hs₁.append hs₂
  have hΓ₁ := hΓ.after π τ₁
  obtain ⟨hs₂, hc₂⟩ := h₁ _ hΓ₁ hd hc.after τ₂ hτ₂
  refine ⟨(safe_rounds hround hτ₁).append hs₂, ?_⟩
  exact (hc₂.push.block (hΓ₁.after π τ₂).withFields hg₂.environment).leave.append

/-- A loop over the elements of a value: each round binds the variable of the loop anew. -/
theorem soundFrom_forIn {π : Pins} {Γ : Setting} {k : Nat} {c c₁ c₂ : Context} {v : Variable}
    {e : Environment} {overList : Bool} {iteratee body : Outline} (hs : v.slot = c.slotCount)
    (hg : c.enterScope.Grows (c₁.withEnvironment e))
    (hg₂ : ((c₁.withEnvironment e).enterBlock !Γ.isStatic).Grows c₂)
    (hdecl : c₁.environment.declare v = .ok e)
    (h₁ : Part.SoundFrom π Γ (k + 3) (c.enterScope.addSlots 2) c₁ (.code iteratee))
    (h₂ : Part.SoundFrom π Γ (k + 4 + iteratee.size)
      ((c₁.withEnvironment e).enterBlock !Γ.isStatic) c₂ (.code body)) :
    Part.SoundFrom π Γ k c (c₂.leaveBlock !Γ.isStatic).leaveScope
      (.code [.forIn overList v.slot (v.slot + 1) iteratee body]) := by
  intro S hΓ hd hc τ hτ
  obtain ⟨τ₁, τ₂, hτ₁, hτ₂, rfl⟩ := Outline.runs_singleton.mp hτ
  have hd₁ := hd.enterScope.grows hg
  obtain ⟨hs₁, hc₁⟩ := h₁ S hΓ (hd.enterScope.addSlots 2) hc.push τ₁ hτ₁
  have hΓ₁ := hΓ.after π τ₁
  have hb : Instruction.Binds ⟨k, .forIn overList, [UInt32.ofNat v.slot,
      UInt32.ofNat (v.slot + 1)]⟩ ⟨.frame, v.slot⟩ := ⟨rfl, .inr ⟨rfl, .inr ⟨_, rfl⟩⟩⟩
  -- each round starts by binding the variable of the loop
  have hround (S' : Slot → Prop) (r : List Event) (hS : ∀ slot, after π S τ₁ slot → S' slot)
      (hr : ∃ r₁, Outline.Runs body (k + 4 + Outline.size iteratee) r₁
        ∧ r = .done ⟨k, .forIn overList, [UInt32.ofNat v.slot, UInt32.ofNat (v.slot + 1)]⟩ :: r₁) :
      Safe π S' r := by
    obtain ⟨r₁, hr₁, rfl⟩ := hr
    have hΓ' : Γ.Ignores S' := fun hst id ↦ hS _ (hΓ₁ hst id)
    have hc' : Covers (after π S' [.done ⟨k, .forIn overList, [UInt32.ofNat v.slot,
        UInt32.ofNat (v.slot + 1)]⟩]) e :=
      (hc₁.mono hS).after.declare hdecl fun _ ↦ .inr (after_done (.inl hb))
    obtain ⟨hs₂, -⟩ := h₂ _ (hΓ'.after π _) (hd₁.enterBlock _) hc'.enter r₁ hr₁
    exact .append (τ := [_]) (.silent fun _ hop ↦ nomatch hop) hs₂
  refine ⟨hs₁.append (safe_rounds hround hτ₂), Covers.append (Covers.after ?_)⟩
  exact hc₁.loop hdecl hΓ₁.withFields (fun w hw ↦ hs ▸ hd.lt w hw) hg hg₂

/-- A closure has a frame of its own. What it does to the fields is what counts around it. -/
theorem soundFrom_closure {π : Pins} {Γ own : Setting} {k given : Nat} {c c₀ c₁ : Context}
    {slots arguments captured : Nat} {usesSelf : Bool} {body : Outline}
    (hst : own.isStatic = Γ.isStatic) (hc₀ : c.Distinct → c₀.IsStart given)
    (hf : c₀.environment.fields = c.environment.fields)
    (h : Part.SoundFrom π own (k + 3) c₀ c₁ (.code body)) :
    Part.SoundFrom π Γ k c (c.withFields c₁.environment.fields)
      (.code [.closure slots body arguments usesSelf captured]) := by
  intro S hΓ hd hc τ hτ
  obtain rfl := Outline.runs_singleton.mp hτ
  -- inside, all variables of the frame are taken to have a value: they are none of ours
  have hcovers : Covers (fun slot ↦ slot.storage = .frame ∨ S slot) c₀.environment := by
    intro st v hv hr
    cases st with
    | frame => exact .inr (.inl rfl)
    | object =>
      obtain ⟨s, hs, hv⟩ := hv
      exact (hc .object v ⟨s, hf ▸ hs, hv⟩ hr).imp_right .inr
  have hΓ' : own.Ignores (fun slot ↦ slot.storage = .frame ∨ S slot) :=
    fun h id ↦ .inr (hΓ (hst ▸ h) id)
  -- any run of the body will do, since what it binds is in the code that is left out
  obtain ⟨τ', hτ'⟩ := Outline.exists_run body (k + 3)
  obtain ⟨-, hc₁⟩ := h _ hΓ' ((hc₀ hd).distinct (hf ▸ hd.object)) hcovers τ' hτ'
  refine ⟨.append (τ := [_]) (.silent fun _ hop ↦ nomatch hop) (.passed _), fun st v hv hr ↦ ?_⟩
  cases st with
  | frame => exact (hc .frame v hv hr).imp_right after_of
  | object =>
    exact (hc₁ .object v hv hr).imp_right (after_closure _ (Outline.occursIn_of_runs body hτ'))

/-! ### Frames -/

/-- The slots that have a value when a frame starts to run, and all fields. -/
def Given (given : Nat) (slot : Slot) : Prop := slot.storage = .frame → slot.id < given

/-- The frames of the closures in a piece of code. -/
def Part.closures (k : Nat) : Part → List CodeFrame
  | .code o | .chain o _ _ => Outline.closures o k

/-- Every run of the code of a frame is safe. -/
def SafeFrame (π : Pins) (f : CodeFrame) : Prop :=
  ∀ τ, Outline.Runs f.code f.offset τ → Safe π (Given f.given) τ

theorem Given.ignores (Γ : Setting) (given : Nat) : Γ.Ignores (Given given) :=
  fun _ _ h ↦ nomatch h

/-- A frame starts with all values that its context counts on. -/
theorem covers_given {given : Nat} {c : Context} (h : c.IsStart given) :
    Covers (Given given) c.environment := by
  rintro st v hv -
  refine .inr ?_
  rintro (rfl : st = .frame)
  obtain ⟨s, hs, hv⟩ := hv
  rw [Environment.locals, h.outer, List.mem_singleton] at hs
  subst hs
  exact h.lt v hv

namespace Emits

variable {π : Pins} {Γ : Setting} {part : Part} {k : Nat} {c c' : Context}

/-- **The counters are right.** Code that starts with all values that its context counts on has safe
runs, and its runs give all values that the context behind it counts on. -/
theorem sound (h : Emits π Γ part k c c') : part.SoundFrom π Γ k c c' := by
  induction h with (intro S hΓ hd hc)
  | nil =>
    rintro τ rfl
    exact ⟨.nil, hc.after⟩
  | append h₁ _ ih₁ ih₂ =>
    intro τ hτ
    obtain ⟨τ₁, τ₂, hτ₁, hτ₂, rfl⟩ := Outline.runs_append.mp hτ
    obtain ⟨hs₁, hc₁⟩ := ih₁ S hΓ hd hc τ₁ hτ₁
    obtain ⟨hs₂, hc₂⟩ := ih₂ _ (hΓ.after π τ₁) (hd.grows h₁.grows) hc₁ τ₂ hτ₂
    exact ⟨hs₁.append hs₂, hc₂.append⟩
  | ordinary hop h₁ _ ih₁ ih₂ =>
    intro τ hτ
    obtain ⟨τ₁, τ₂, hτ₁, hτ₂, rfl⟩ := Outline.runs_singleton.mp hτ
    obtain ⟨hs₁, hc₁⟩ := ih₁ S hΓ hd hc τ₁ hτ₁
    obtain ⟨hs₂, hc₂⟩ := ih₂ _ (hΓ.after π τ₁) (hd.grows h₁.grows) hc₁ τ₂ hτ₂
    refine ⟨(hs₁.append hs₂).append (.silent fun action h ↦ ?_), hc₂.append.after.append⟩
    exact nomatch (congrArg Opcode.isOrdinary h).symm.trans hop
  | @load Γ k c x st v hx hr hπ =>
    intro τ hτ
    obtain ⟨_, rfl, rfl⟩ := Item.runs_plain.mp (Outline.runs_singleton.mp hτ)
    exact ⟨.done fun hi ↦ covered_of_holds hc (Environment.holds_of_resolve? hx) hr hπ hi,
      hc.after⟩
  | @step Γ k c x st v action span mutated hx hr hm hπ ha =>
    intro τ hτ
    obtain ⟨_, rfl, rfl⟩ := Item.runs_plain.mp (Outline.runs_singleton.mp hτ)
    exact ⟨.done fun hi ↦ covered_of_holds hc (Environment.holds_of_resolve? hx) hr hπ hi,
      (hc.mutate hx hm).after⟩
  | declare _ _ _ ho hd' =>
    rintro τ rfl
    exact ⟨.nil, (hc.declare hd' fun hr ↦ .inl (ho hr)).after⟩
  | @introduce Γ k c c₁ op v e o hop _ _ _ _ _ _ hd' ih =>
    intro τ hτ
    obtain ⟨τ', hτ', rfl⟩ := Item.runs_plain.mp (Outline.runs_singleton.mp hτ)
    obtain ⟨hs₁, hc₁⟩ := ih S hΓ (hd.addSlots 1) hc τ' hτ'
    have hb : Instruction.Binds ⟨k, op, [UInt32.ofNat v.slot]⟩ ⟨.frame, v.slot⟩ :=
      ⟨rfl, hop.imp_right fun h ↦ ⟨rfl, .inl h⟩⟩
    refine ⟨hs₁.append (.silent fun action h ↦ ?_), ?_⟩
    · rcases hop with h' | h' <;> cases h'.symm.trans h
      rfl
    · exact (hc₁.after.declare hd' fun _ ↦ .inr (after_done (.inl hb))).append
  | assign hx hm _ _ hstray ih => exact soundFrom_assign hx hm hstray ih S hΓ hd hc
  | selfReference =>
    intro τ hτ
    obtain ⟨_, rfl, rfl⟩ := Item.runs_plain.mp (Outline.runs_singleton.mp hτ)
    exact ⟨.silent fun _ hop ↦ (nomatch hop), hc.after⟩
  | superInitializer hi _ _ _ ih =>
    intro τ hτ
    obtain ⟨τ', hτ', rfl⟩ := Item.runs_plain.mp (Outline.runs_singleton.mp hτ)
    obtain ⟨hs₁, hc₁⟩ := ih S hΓ hd hc τ' hτ'
    exact ⟨hs₁.append (.silent fun _ hop ↦ nomatch hop), hc₁.after.append⟩
  | returning _ _ ih =>
    intro τ hτ
    obtain ⟨τ', hτ', rfl⟩ := Item.runs_plain.mp (Outline.runs_singleton.mp hτ)
    obtain ⟨hs₁, hc₁⟩ := ih S hΓ hd hc τ' hτ'
    exact ⟨hs₁.append (.silent fun _ hop ↦ nomatch hop), hc₁.after.append⟩
  | @ifChain Γ k c c₁ c₂ c₃ reports isTotal condition body rest h₁ h₂ h₃ ih₁ ih₂ ih₃ =>
    intro τ hτ
    obtain ⟨τ₁, τ₂, hτ₁, hτ⟩ := Outline.runs_singleton.mp hτ
    obtain ⟨hs, hc', hr⟩ := soundFrom_branch h₁.grows h₂.grows h₃.grows ih₁ ih₂ ih₃ hΓ hd hc hτ₁ hτ
    refine ⟨hs, ?_⟩
    cases isTotal with
    | false => exact hc'
    | true =>
      -- a total chain takes one of its branches, and each of them reports what is settled behind it
      obtain ⟨r, hm, hr⟩ := hr rfl
      exact hc'.foldl_settle (hr.inEach hm)
  | chainEnd =>
    refine ⟨?_, hc.after⟩
    rintro τ rfl
    exact ⟨.nil, hc.after, fun h ↦ nomatch h⟩
  | @otherwise Γ k c c₁ body h₁ ih =>
    have hc₁ := (hc.push.block hΓ.withFields h₁.grows.environment).leave
    refine ⟨fun τ hτ ↦ ?_, hc₁.after⟩
    obtain ⟨hs, hc'⟩ := ih S hΓ (hd.enterScope.enterBlock _) hc.push.enter τ
      (Outline.runs_singleton.mp hτ)
    refine ⟨hs, hc₁.after, fun _ ↦ ⟨_, List.mem_singleton_self _, ?_⟩⟩
    exact hc'.reported ((hd.enterScope.enterBlock _).grows h₁.grows) (.refl _)
  | @elseIf Γ k c c₁ c₂ c₃ reports isTotal condition body rest h₁ h₂ h₃ ih₁ ih₂ ih₃ =>
    refine ⟨fun τ hτ ↦ ?_, covers_of_passed h₁.grows h₂.grows ih₁ ih₃ hΓ hd hc⟩
    obtain ⟨τ₁, τ₂, hτ₁, hτ⟩ := Outline.runs_singleton.mp hτ
    exact soundFrom_branch h₁.grows h₂.grows h₃.grows ih₁ ih₂ ih₃ hΓ hd hc hτ₁ hτ
  | repeatWhile h₁ h₂ ih₁ ih₂ =>
    exact soundFrom_repeatWhile h₁.grows h₂.grows ih₁ ih₂ S hΓ hd hc
  | forIn hs _ hr _ h₁ hdecl h₂ ih₁ ih₂ =>
    exact soundFrom_forIn hs (h₁.grows_loop hs hr hdecl) h₂.grows hdecl ih₁ ih₂ S hΓ hd hc
  | closure hst _ hc₀ _ _ hf _ _ _ _ _ ih => exact soundFrom_closure hst hc₀ hf ih S hΓ hd hc

/-! ### Closures -/

/-- Code that starts a frame is safe in it. -/
theorem safeFrame {o : Outline} {given : Nat} (h : Emits π Γ (.code o) k c c')
    (hc : c.IsStart given) (hd : c.Distinct) : SafeFrame π ⟨given, k, o⟩ :=
  fun τ hτ ↦ (h.sound _ (.ignores Γ given) hd (covers_given hc) τ hτ).1

/-- **Closures are safe.** -/
theorem safe_closures (h : Emits π Γ part k c c') (hd : c.Distinct) :
    ∀ f ∈ part.closures k, SafeFrame π f := by
  induction h with
  | nil | load | step | declare | selfReference | chainEnd => exact fun _ h ↦ nomatch h
  | append h₁ _ ih₁ ih₂ =>
    rw [Part.closures, Outline.closures_append]
    exact List.forall_mem_append.mpr ⟨ih₁ hd, ih₂ (hd.grows h₁.grows)⟩
  | ordinary _ h₁ _ ih₁ ih₂ =>
    rw [Part.closures, Outline.closures_singleton]
    exact List.forall_mem_append.mpr ⟨ih₁ hd, ih₂ (hd.grows h₁.grows)⟩
  | introduce _ _ _ _ _ _ _ _ ih =>
    rw [Part.closures, Outline.closures_singleton]
    exact ih (hd.addSlots 1)
  | assign hx hm _ _ _ ih =>
    rw [Part.closures, Outline.closures_singleton]
    exact ih (hd.grows (.mutate hx hm))
  | superInitializer _ _ _ _ ih | returning _ _ ih =>
    rw [Part.closures, Outline.closures_singleton]
    exact ih hd
  | ifChain h₁ h₂ _ ih₁ ih₂ ih₃ | elseIf h₁ h₂ _ ih₁ ih₂ ih₃ =>
    rw [Part.closures, Outline.closures_singleton]
    have hbody := ih₂ ((hd.enterScope.grows h₁.grows).enterBlock _)
    have hrest := ih₃ (hd.grows (h₁.grows.branch h₂.grows))
    exact List.forall_mem_append.mpr ⟨List.forall_mem_append.mpr ⟨ih₁ hd.enterScope, hbody⟩, hrest⟩
  | otherwise h₁ ih =>
    rw [Part.closures, Outline.closures_singleton]
    exact ih (hd.enterScope.enterBlock _)
  | repeatWhile h₁ _ ih₁ ih₂ =>
    rw [Part.closures, Outline.closures_singleton]
    have hbody := ih₂ ((hd.grows h₁.grows).enterScope.enterBlock _)
    exact List.forall_mem_append.mpr ⟨ih₁ hd, hbody⟩
  | forIn hs _ hr _ h₁ hdecl _ ih₁ ih₂ =>
    rw [Part.closures, Outline.closures_singleton]
    have hbody := ih₂ (.enterBlock (hd.enterScope.grows (h₁.grows_loop hs hr hdecl)) _)
    exact List.forall_mem_append.mpr ⟨ih₁ (hd.enterScope.addSlots 2), hbody⟩
  | closure _ _ hc₀ _ _ hf₀ _ _ _ _ h₁ ih =>
    rw [Part.closures, Outline.closures_singleton]
    have hd₀ := (hc₀ hd).distinct (hf₀ ▸ hd.object)
    exact List.forall_mem_cons.mpr ⟨h₁.safeFrame (hc₀ hd) hd₀, ih hd₀⟩

end Emits

end Pictograph
