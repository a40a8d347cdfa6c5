import Pictograph.Proofs.Analysis.Expressions

/-!
# Bodies of closures

A closure reads its heading in the frame around it. Its body is then analysed in a frame of its own,
which begins with the arguments and with copies of what is visible around it, and all expressions
that the closure asks for are asked for by the statements in this frame. What is entered, what is
asked and what is left are described here once, for what is counted, numbered and recommended on the
way.

## Main definitions

* `enterBody`: what a body does in front of its statements.
* `AsksInside`: what the body of a closure asks.

## Main results

* `isStart_of_enterBody`: what a frame begins with.
* `exists_of_asks_closure`: what a closure asks, its body asks.
-/

namespace Pictograph

namespace Analysis

variable {α : Type} {Γ : Setting} {rec : Recursion} {s s' : State} {first outerSlots : Nat}
  {captured : List Variable} {arguments : List Argument}

/-! ## Entering a body -/

/-- What a body does in front of its statements. It returns the first slot that it takes over. -/
def enterBody (Γ : Setting) (arguments : List Argument) (captured : List Variable)
    (outerSlots : Nat) : Analysis Nat := do
  let span ← here
  arguments.forM (declareArgument Γ span)
  takeOver Γ span captured outerSlots

theorem body_eq_enterBody (Γ : Setting) (rec : Recursion) (arguments : List Argument)
    (captured : List Variable) (outerSlots : Nat) :
    body Γ rec arguments captured outerSlots = (do
      let first ← enterBody Γ arguments captured outerSlots
      let ending ← bodyStatements Γ rec
      leaveBody Γ first outerSlots ending) := by
  simp only [body, enterBody, bind_assoc]

/-- **What a frame begins with.** The arguments and what is taken over are in slots of their own,
and these are handed out. -/
theorem isStart_of_enterBody {fields : Option Scope} (hs : s.environment = .start fields)
    (hcount : s.frame.slotCount = 0)
    (h : enterBody Γ arguments captured outerSlots s = .ok first s')
    (hnodup : (captured.map (·.slot)).Nodup) (hlt : ∀ v ∈ captured, v.slot < outerSlots) :
    s'.context.IsStart (arguments.length + outerSlots) := by
  obtain ⟨here', s₁, hhere, h⟩ := bind_ok h
  cases hhere
  obtain ⟨_, s₂, hdeclare, htake⟩ := bind_ok h
  obtain ⟨vs, hvs, hargs, -⟩ := declares_arguments hdeclare
  obtain ⟨vs', hvs', hsub, -⟩ := declares_takeOver htake
  have henvironment : s'.context.environment
      = { Environment.start fields with current := ⟨vs ++ vs'⟩ } := by
    rw [(hvs.trans hvs').context, State.context, hs]
    rfl
  have hslots : s₂.context.slotCount = arguments.length := by
    rw [hvs.context]
    exact (congrArg (· + arguments.length) hcount).trans (Nat.zero_add _)
  have hbegin : s.context.slotCount = 0 := hcount
  rw [hbegin] at hargs
  rw [hslots] at hsub
  have htotal : s'.context.slotCount = arguments.length + outerSlots := by
    rw [hvs'.context]
    exact congrArg (· + outerSlots) hslots
  refine isStart_of_taken ?_ ?_ htotal hargs hsub hnodup hlt
  · rw [henvironment]
    rfl
  · rw [henvironment]

/-! ## What bodies ask -/

/-- What a body asks, its statements ask, behind the entering. -/
theorem exists_of_asks_body (hrec : rec.GoesOnward) {q : Query}
    (hq : Asks rec (fun r ↦ body Γ r arguments captured outerSlots) s q) :
    ∃ first s₁, enterBody Γ arguments captured outerSlots s = .ok first s₁
      ∧ Asks rec (fun r ↦ bodyStatements Γ r) s₁ q := by
  simp only [body_eq_enterBody] at hq
  obtain ⟨first, s₁, henter, hq⟩ := hq.of_const_bind
  exact ⟨first, s₁, henter, (Traverses.composed (W := fun _ ↦ True) (R := State.Onward) hrec
    composed_bodyStatements).asks_of_bind_const hq⟩

/-- What the statements of a body ask, the body asks. -/
theorem asks_of_enterBody {q : Query} {s₁ : State}
    (henter : enterBody Γ arguments captured outerSlots s = .ok first s₁)
    (hq : Asks rec (fun r ↦ bodyStatements Γ r) s₁ q) :
    Asks rec (fun r ↦ body Γ r arguments captured outerSlots) s q := by
  simp only [body_eq_enterBody]
  exact .behind henter (.first hq)

/-! ## Headings and frames of closures -/

/-- The heading of a closure is read in the frame around it, and then two words are reserved. -/
theorem openClosure_steps {x : (List Argument × Ty) × (Hole × CountHole)}
    (h : openClosure Γ s = .ok x s') :
    ∃ s₁ s₂, closureArguments Γ s = .ok x.1.1 s₁ ∧ closureResult Γ s₁ = .ok x.1.2 s₂
      ∧ s' = { s₂ with
        assembler := (s₂.assembler.opcode .closure).appendHole.appendHole } := by
  obtain ⟨arguments, s₁, harguments, h⟩ := bind_ok h
  obtain ⟨result, s₂, hresult, h⟩ := bind_ok h
  obtain ⟨_, s₃, hemit, h⟩ := bind_ok h
  cases hemit
  obtain ⟨_, s₄, hslots, h⟩ := bind_ok h
  cases hslots
  obtain ⟨_, s₅, hcount, h⟩ := bind_ok h
  cases hcount
  obtain ⟨rfl, rfl⟩ := pure_ok h
  exact ⟨s₁, s₂, harguments, hresult, rfl⟩

/-- A heading that is read opens a closure. -/
theorem exists_openClosure {s₁ s₂ : State} {result : Ty}
    (harguments : closureArguments Γ s = .ok arguments s₁)
    (hresult : closureResult Γ s₁ = .ok result s₂) :
    ∃ holes, openClosure Γ s = .ok ((arguments, result), holes) { s₂ with
      assembler := (s₂.assembler.opcode .closure).appendHole.appendHole } :=
  ⟨_, (bind_of_ok harguments).trans (bind_of_ok hresult)⟩

/-- The heading of a closure leaves the frame around it as it is. -/
theorem openClosure_ok {x : (List Argument × Ty) × (Hole × CountHole)}
    (h : openClosure Γ s = .ok x s') :
    s'.environment = s.environment ∧ s'.frame.slotCount = s.frame.slotCount := by
  obtain ⟨s₁, s₂, harguments, hresult, rfl⟩ := openClosure_steps h
  have hcontext := (keeps_heading harguments hresult).context
  exact ⟨congrArg Context.environment hcontext, congrArg Context.slotCount hcontext⟩

theorem enclosed_ok {y : Summary × Nat} {result : Ty}
    (h : enclosed Γ rec arguments result s = .ok y s') :
    ∃ summary inner, body (Γ.ofClosure result) rec arguments s.environment.visible
        s.frame.slotCount { s with environment := .start s.environment.fields, frame := {} }
        = .ok summary inner
      ∧ s' = { inner with
        environment := { s.environment with fields := inner.environment.fields }
        frame := s.frame } := by
  obtain ⟨outer, s₁, hget, h⟩ := bind_ok h
  cases hget
  obtain ⟨summary, s₂, hframe, h⟩ := bind_ok h
  obtain ⟨-, rfl⟩ := pure_ok h
  rw [inFrame_eq] at hframe
  split at hframe
  · next _ inner hbody =>
    cases hframe
    exact ⟨summary, inner, hbody, rfl⟩
  · cases hframe

/-! ## What closures ask -/

/-- What the body of a closure asks, where the heading of the closure ends in a state. -/
def AsksInside (Γ : Setting) (rec : Recursion) (arguments : List Argument) (result : Ty)
    (s : State) (q : Query) : Prop :=
  Asks rec (fun r ↦ body (Γ.ofClosure result) r arguments s.environment.visible s.frame.slotCount)
    { s with environment := .start s.environment.fields, frame := {} } q

theorem asks_closure {x : (List Argument × Ty) × (Hole × CountHole)} {q : Query} {s₁ : State}
    (h : openClosure Γ s = .ok x s₁) (hq : AsksInside Γ rec x.1.1 x.1.2 s₁ q) :
    Asks rec (fun r ↦ closure Γ r) s q := by
  simp only [closure_eq, enclosed, inFrame_eq_bind, bind_assoc]
  exact .behind h (.behind rfl (.behind rfl (.behind rfl (.first hq))))

/-- What a frame asks is asked inside it. -/
theorem asks_inFrame {m : Recursion → Analysis α} (hm : Traverses State.Onward rec m) {q : Query}
    (hq : Asks rec (fun r ↦ inFrame (m r)) s q) :
    Asks rec m { s with environment := .start s.environment.fields, frame := {} } q := by
  simp only [inFrame_eq_bind] at hq
  obtain ⟨outer, s₁, hget, hq⟩ := hq.of_const_bind
  cases hget
  obtain ⟨_, s₁, hset, hq⟩ := hq.of_const_bind
  cases hset
  exact hm.asks_of_bind_const hq

/-- What a closure asks, its body asks. -/
theorem exists_of_asks_closure (hrec : rec.GoesOnward) {q : Query}
    (hq : Asks rec (fun r ↦ closure Γ r) s q) :
    ∃ x s₁, openClosure Γ s = .ok x s₁ ∧ AsksInside Γ rec x.1.1 x.1.2 s₁ q := by
  simp only [closure_eq, enclosed, bind_assoc, pure_bind] at hq
  obtain ⟨x, s₁, hopen, hq⟩ := hq.of_const_bind
  obtain ⟨outer, s₂, hget, hq⟩ := hq.of_const_bind
  cases hget
  have hbody := Traverses.body (Γ := Γ.ofClosure x.1.2) hrec x.1.1 s₁.environment.visible
    s₁.frame.slotCount
  exact ⟨x, s₁, hopen, asks_inFrame hbody (hbody.inFrame.asks_of_bind_const hq)⟩

end Analysis

end Pictograph
