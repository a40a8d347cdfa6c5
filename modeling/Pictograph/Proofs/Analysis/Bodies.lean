import Pictograph.Analysis.Body
import Pictograph.Proofs.Analysis.Branches
import Pictograph.Proofs.Analysis.Returns

/-!
# Bodies and closures

A body starts with its arguments in the first slots of its frame. A closure takes over the slots of
the frame around it, so its context is one that a body starts in if the slots out there are their
own. What a body has checked at its end is part of what is known about its code.

## Main results

* `Analysis.wrote_body`: a body emits by the rules from a context that a body starts in.
* `Analysis.closure_ok`: what a closure does besides running its body.
* `Analysis.listing_of_closure`: the words that a closure writes.
* `Analysis.wrote_closure`: a closure emits by the rules.
-/

namespace Pictograph

/-- What a body has checked at its end. -/
structure Setting.Accepts (Γ : Setting) (c : Context) : Prop where
  /-- An initializer has given a value to all fields. -/
  complete : Γ.initializer?.isSome → ∃ span, c.environment.requireComplete span = .ok ()
  /-- The superclass was initialized if it has to be. -/
  calledSuper : Γ.initializesSuper → c.calledSuper
  /-- With a return type the body has returned. -/
  hasReturned : Γ.result.isNothingness = false → c.hasReturned

/-- The recommendation to freeze a variable. -/
def Variable.recommendation (v : Variable) : Warning :=
  ⟨.couldBeFrozen v.name, v.span⟩

/-- The copy of a variable in a frame that takes over the one around it behind its slot `first`. -/
def Variable.copyBehind (first : Nat) (v : Variable) : Variable :=
  { v with slot := first + v.slot }

/-- The state in which the body of a closure begins: behind the opcode two words are reserved, and
the frame and the local scopes are new. -/
def State.enterClosure (s : State) : State :=
  { s with
    assembler := (s.assembler.opcode .closure).appendHole.appendHole
    environment := .start s.environment.fields
    frame := {} }

/-- The steps of a closure. Its arguments and its return type are read from the state `s` on. Then a
frame of its own begins, with the arguments and with what is visible in the frame around it. The
statements are analysed from the state `entry` on, up to the state `ending`. -/
inductive Encloses (Γ : Setting) (rec : Recursion) (s : State) (arguments : List Argument)
    (entry ending : State) : Prop
  | intro {s₁ s₂ s₃ : State} {result : Ty} {close : Span} {first : Nat}
      (harguments : Analysis.closureArguments Γ s = .ok arguments s₁)
      (hresult : Analysis.closureResult Γ s₁ = .ok result s₂)
      (hdeclare : arguments.forM (Analysis.declareArgument (Γ.ofClosure result) s₂.cursor.here)
        s₂.enterClosure = .ok () s₃)
      (htake : Analysis.takeOver (Γ.ofClosure result) s₂.cursor.here s₂.environment.visible
        s₂.frame.slotCount s₃ = .ok first entry)
      (hstatements : Analysis.bodyStatements (Γ.ofClosure result) rec entry = .ok close ending)

theorem State.offset_enterClosure (s : State) : s.enterClosure.offset = s.offset + 3 := by
  rw [offset, enterClosure, Assembler.size_appendHole, Assembler.size_appendHole,
    Assembler.size_opcode]
  rfl

theorem Environment.withoutHidden_sublist (seen : List String) (l : List Variable) :
    (withoutHidden seen l).Sublist l := by
  induction l generalizing seen with
  | nil => exact .slnil
  | cons v l ih =>
    rw [withoutHidden]
    split
    · exact (ih seen).cons v
    · exact (ih _).cons_cons v

namespace Analysis

variable {Γ : Setting} {s s' : State} {u : Unit} {span : Span}

/-! ## Entering a body -/

/-- A step that only declares variables in the innermost scope. -/
structure Declares (vs : List Variable) (slots : Nat) (s s' : State) : Prop where
  listing : s'.listing = s.listing
  holes : s'.holes = s.holes
  context : s'.context = (s.context.addSlots slots).withEnvironment
    { s.environment with current := ⟨s.environment.current.declared ++ vs⟩ }

theorem Declares.refl (s : State) : Declares [] 0 s s := by
  refine ⟨rfl, rfl, ?_⟩
  rw [List.append_nil]
  rfl

theorem Declares.trans {vs vs' : List Variable} {n n' : Nat} {s'' : State}
    (h : Declares vs n s s') (h' : Declares vs' n' s' s'') :
    Declares (vs ++ vs') (n + n') s s'' := by
  refine ⟨h'.listing.trans h.listing, h'.holes.trans h.holes, ?_⟩
  have he : s'.environment = { s.environment with
      current := ⟨s.environment.current.declared ++ vs⟩ } :=
    congrArg Context.environment h.context
  rw [h'.context, h.context, he]
  simp only [Context.addSlots, Context.withEnvironment, List.append_assoc, Nat.add_assoc]

theorem declares_declare {v : Variable} (h : declare v s = .ok u s') : Declares [v] 0 s s' := by
  obtain ⟨e, he, rfl⟩ := declare_ok h
  refine ⟨rfl, rfl, ?_⟩
  rw [← Environment.eq_of_declare he]
  rfl

/-- The arguments keep their names, are frozen and are in consecutive slots that may be handed
out. -/
theorem declares_arguments {arguments : List Argument}
    (h : arguments.forM (declareArgument Γ span) s = .ok u s') :
    ∃ vs, Declares vs arguments.length s s'
      ∧ vs.map (·.slot) = List.range' s.context.slotCount arguments.length
      ∧ (∀ v ∈ vs, v.slot < Γ.slotBound) ∧ vs.map (·.name) = arguments.map (·.name)
      ∧ ∀ v ∈ vs, v.isFrozen := by
  induction arguments generalizing s with
  | nil =>
    obtain ⟨-, rfl⟩ := pure_ok h
    exact ⟨[], .refl s, rfl, fun _ hv ↦ (nomatch hv), rfl, fun _ hv ↦ nomatch hv⟩
  | cons a arguments ih =>
    obtain ⟨_, s₁, h₁, h⟩ := bind_ok h
    obtain ⟨slot, s₂, h₂, h₁⟩ := bind_ok h₁
    obtain ⟨rfl, hbound, hl, hh, hc, -⟩ := newSlot_ok h₂
    have hnew : Declares [] 1 s s₂ := by
      refine ⟨hl, hh, ?_⟩
      rw [List.append_nil, hc]
      rfl
    have hfirst := hnew.trans (declares_declare h₁)
    obtain ⟨vs, hvs, hslots, hbounds, hnames, hfrozen⟩ := ih h
    rw [hfirst.context] at hslots
    refine ⟨_ :: vs, Nat.add_comm arguments.length 1 ▸ hfirst.trans hvs, ?_,
      List.forall_mem_cons.mpr ⟨hbound, hbounds⟩, ?_, List.forall_mem_cons.mpr ⟨rfl, hfrozen⟩⟩
    · rw [List.map_cons, hslots]
      rfl
    · rw [List.map_cons, hnames]
      rfl

/-- Variables of the enclosing frame are taken over into slots behind `first`, if these may be
handed out. Those that a variable of the scope or one before them hides are left out. -/
theorem declares_captured {captured : List Variable} {first : Nat} {seen : List String}
    (hseen : ∀ x, x ∈ seen ↔ s.environment.current.contains x)
    (h : captured.forM (declareCaptured Γ span first) s = .ok u s') :
    Declares ((Environment.withoutHidden seen captured).map (·.copyBehind first)) 0 s s'
      ∧ ∀ v ∈ Environment.withoutHidden seen captured, first + v.slot < Γ.slotBound := by
  induction captured generalizing s seen with
  | nil =>
    obtain ⟨-, rfl⟩ := pure_ok h
    exact ⟨.refl s, fun _ hv ↦ nomatch hv⟩
  | cons v captured ih =>
    obtain ⟨_, s₁, h₁, h⟩ := bind_ok h
    obtain ⟨_, s₂, h₂, h₁⟩ := bind_ok h₁
    cases h₂
    dsimp only at h₁
    rw [Environment.withoutHidden]
    by_cases hv : v.name ∈ seen
    · rw [if_pos hv]
      rw [(hseen v.name).mp hv] at h₁
      obtain ⟨-, rfl⟩ := pure_ok h₁
      exact ih hseen h
    · rw [if_neg hv]
      rw [eq_false_of_ne_true (mt (hseen v.name).mpr hv)] at h₁
      obtain ⟨_, s₃, h₃, h₁⟩ := bind_ok h₁
      obtain ⟨hbound, rfl⟩ := requireSlot_ok h₃
      have hfirst := declares_declare h₁
      have hcurrent : s₁.environment.current
          = ⟨s.environment.current.declared ++ [v.copyBehind first]⟩ :=
        congrArg (·.environment.current) hfirst.context
      have hseen' (x : String) :
          x ∈ v.name :: seen ↔ s₁.environment.current.contains x := by
        rw [hcurrent, List.mem_cons, hseen, or_comm, @eq_comm _ x]
        simp [Scope.contains, Variable.copyBehind]
      obtain ⟨hrest, hbounds⟩ := ih hseen' h
      exact ⟨hfirst.trans hrest, List.forall_mem_cons.mpr ⟨hbound, hbounds⟩⟩

theorem declares_takeOver {captured : List Variable} {outerSlots first : Nat}
    (h : takeOver Γ span captured outerSlots s = .ok first s') :
    ∃ vs, Declares vs outerSlots s s'
      ∧ (vs.map (·.slot)).Sublist (captured.map fun v ↦ s.context.slotCount + v.slot)
      ∧ (∀ v ∈ vs, v.slot < Γ.slotBound)
      ∧ (0 < outerSlots → vs = (Environment.withoutHidden
        (s.environment.current.declared.map (·.name)) captured).map
          (·.copyBehind s.context.slotCount))
      ∧ ∀ v ∈ vs, ∃ u ∈ captured, v = u.copyBehind s.context.slotCount := by
  obtain ⟨f, s₁, h₁, h⟩ := bind_ok h
  cases h₁
  dsimp only at h
  split at h
  -- all slots of the enclosing frame are set aside, also those of hidden variables
  · obtain ⟨_, s₂, h₂, h⟩ := bind_ok h
    obtain ⟨_, s₃, h₃, h⟩ := bind_ok h
    cases h₃
    obtain ⟨-, rfl⟩ := pure_ok h
    have hseen (x : String) : x ∈ s.environment.current.declared.map (·.name)
        ↔ s.environment.current.contains x := by
      simp [Scope.contains]
    obtain ⟨hvs, hbounds⟩ := declares_captured hseen h₂
    have hsub := Environment.withoutHidden_sublist
      (s.environment.current.declared.map (·.name)) captured
    refine ⟨_, ⟨hvs.listing, hvs.holes, ?_⟩, ?_, List.forall_mem_map.mpr hbounds, fun _ ↦ rfl,
      List.forall_mem_map.mpr fun u hu ↦ ⟨u, hsub.subset hu, rfl⟩⟩
    · change { s₂.context with slotCount := s.context.slotCount + outerSlots } = _
      rw [hvs.context]
      rfl
    · rw [List.map_map]
      exact hsub.map _
  · next hz =>
    obtain ⟨-, rfl⟩ := pure_ok h
    obtain rfl : outerSlots = 0 := Nat.eq_zero_of_not_pos hz
    exact ⟨[], .refl s, List.nil_sublist _, fun _ hv ↦ absurd hv List.not_mem_nil,
      fun hpos ↦ absurd hpos (Nat.lt_irrefl 0), fun _ hv ↦ absurd hv List.not_mem_nil⟩

end Analysis

/-- Arguments in consecutive slots below a bound are no more than that. -/
theorem length_le_of_slots {vs : List Variable} {n bound : Nat}
    (h : vs.map (·.slot) = List.range' 0 n) (hbounds : ∀ v ∈ vs, v.slot < bound) : n ≤ bound := by
  cases n with
  | zero => exact Nat.zero_le bound
  | succ n =>
    have hlast : n ∈ vs.map (·.slot) := by
      rw [h, List.mem_range'_1]
      omega
    obtain ⟨v, hv, rfl⟩ := List.mem_map.mp hlast
    exact hbounds v hv

/-! ### Distinct slots -/

/-- The visible variables are in slots of their own if all variables are. -/
theorem Environment.Distinct.visible {n : Nat} {e : Environment} (h : e.Distinct n) :
    (e.visible.map (·.slot)).Nodup ∧ ∀ v ∈ e.visible, v.slot < n := by
  have hsub : e.visible.Sublist (e.locals.flatMap (·.declared)) := withoutHidden_sublist [] _
  refine ⟨(hsub.map _).nodup h.frame, fun v hv ↦ h.lt v ?_⟩
  obtain ⟨s, hs, hv⟩ := List.mem_flatMap.mp (hsub.subset hv)
  exact ⟨s, hs, hv⟩

/-- Frozen arguments, and behind them copies of what is visible, are handed over to a closure. -/
theorem handsOver_of_copies {c c₀ : Context} {n : Nat} (hd : c.Distinct)
    (hslots : c₀.slotCount = n + c.slotCount)
    (h : ∀ v, c₀.environment.Holds .frame v → v.slot < n ∧ v.isFrozen
      ∨ ∃ u ∈ c.environment.visible, v = u.copyBehind n) : c.HandsOver n c₀ where
  slotCount := hslots
  frozen v hv hlt := by
    rcases h v hv with ⟨-, hfrozen⟩ | ⟨u, -, rfl⟩
    · exact hfrozen
    · exact absurd hlt (Nat.not_lt_of_le (Nat.le_add_right n u.slot))
  copies v v' hv hv' hslot := by
    rcases h v' hv' with ⟨hlt, -⟩ | ⟨u, hu, rfl⟩
    · omega
    · have hsub : c.environment.visible.Sublist (c.environment.locals.flatMap (·.declared)) :=
        Environment.withoutHidden_sublist [] _
      obtain ⟨scope, hscope, hmem⟩ := List.mem_flatMap.mp (hsub.subset hu)
      have hheld : c.environment.Holds .frame u := ⟨scope, hscope, hmem⟩
      have heq : u = v := hd.eq_of_slot_eq hheld hv (Nat.add_left_cancel hslot)
      exact congrArg (·.isFrozen) heq

/-- Moving slots up by the same amount keeps them apart. -/
theorem slots_of_taken {vs captured : List Variable} {n m : Nat}
    (hsub : (vs.map (·.slot)).Sublist (captured.map fun v ↦ n + v.slot))
    (hnodup : (captured.map (·.slot)).Nodup) (hlt : ∀ v ∈ captured, v.slot < m) :
    (vs.map (·.slot)).Nodup ∧ ∀ slot ∈ vs.map (·.slot), n ≤ slot ∧ slot < n + m := by
  refine ⟨hsub.nodup ?_, fun slot hslot ↦ ?_⟩
  · have hcomp : (captured.map fun v ↦ n + v.slot) = (captured.map (·.slot)).map (n + ·) := by
      rw [List.map_map]
      rfl
    rw [hcomp]
    exact hnodup.map fun a b hab ↦ Nat.add_left_cancel hab
  · obtain ⟨v, hv, rfl⟩ := List.mem_map.mp (hsub.subset hslot)
    exact ⟨Nat.le_add_right n _, Nat.add_lt_add_left (hlt v hv) n⟩

/-- Arguments and what is taken over behind them are a context that a body starts in. -/
theorem isStart_of_taken {vs vs' captured : List Variable} {n m : Nat} {c : Context}
    (hc : c.environment.outer = []) (hvs : c.environment.current.declared = vs ++ vs')
    (hn : c.slotCount = n + m) (hargs : vs.map (·.slot) = List.range' 0 n)
    (hsub : (vs'.map (·.slot)).Sublist (captured.map fun v ↦ n + v.slot))
    (hnodup : (captured.map (·.slot)).Nodup) (hlt : ∀ v ∈ captured, v.slot < m) :
    c.IsStart (n + m) := by
  have hslots : c.environment.current.declared.map (·.slot)
      = List.range' 0 n ++ vs'.map (·.slot) := by rw [hvs, List.map_append, hargs]
  obtain ⟨hapart, htaken⟩ := slots_of_taken hsub hnodup hlt
  refine ⟨hc, ?_, fun v hv ↦ ?_, hn⟩
  · rw [hslots, List.nodup_append]
    refine ⟨List.nodup_range', hapart, fun a ha b hb hab ↦ ?_⟩
    -- arguments are below `n`, what is taken over is not
    have ha' := List.mem_range'_1.mp ha
    have hb' := htaken b hb
    omega
  · have hmem := List.mem_map_of_mem (f := (·.slot)) hv
    rw [hslots] at hmem
    rcases List.mem_append.mp hmem with hmem | hmem
    · have := List.mem_range'_1.mp hmem
      omega
    · exact (htaken _ hmem).2

namespace Analysis

variable {π : Notes} {Γ : Setting} {rec : Recursion} {s s' : State} {t : Ty}
  {span : Span}

/-! ## Statements -/

theorem keeps_skipBody (h : Emitting π rec (fun _ ↦ skipBody) s span s') : Keeps s s' := by
  simp only [skipBody_eq] at h
  have hstep (depth : Nat) (s : State) (x : Nat ⊕ Span) (s' : State)
      (h : Emitting π rec (fun _ ↦ skipStep depth) s x s') : Keeps s s' := by
    obtain ⟨token, s₁, h₁, h⟩ := h.bind
    have hk : s₁ = s' := by
      rcases h.ite with ⟨-, h⟩ | ⟨-, h⟩
      · exact (pure_ok h.const).2
      · rcases h.ite with ⟨-, h⟩ | ⟨-, h⟩
        · exact (pure_ok h.const).2
        · exact (pure_ok h.const).2
    exact hk ▸ keeps_next h₁.const
  exact h.repeatUntil (Q := fun _ s _ s' ↦ Keeps s s') (fun _ _ _ _ h ↦ hstep _ _ _ _ h)
    fun _ _ _ _ _ _ h ih ↦ (hstep _ _ _ _ h).trans ih

/-- If there is another token, it ends the block. -/
def AtClose (s : State) : Prop :=
  ∀ token, s.cursor.peek = some token → token.asksFor .blockClose

/-- Statements of a body emit an outline. If dead code is left out and none was reported, the flag
may be up only where the body ends, it stays up, and it is up behind every return among the
statements. -/
def WritesStatements (π : Notes) (Γ : Setting) (reported : Bool) (s s' : State) : Prop :=
  ∃ o, Writes π Γ o s s' ∧ (Γ.initializer? = none → Γ.options.compilesDeadCode = false →
    reported = false → (s.frame.hasReturned → AtClose s) →
      (s.frame.hasReturned → s'.frame.hasReturned)
        ∧ ((∃ item ∈ o, item.isReturn) → s'.frame.hasReturned))

/-- The last step reads the end of the body, or skips what is dead. -/
theorem WritesStatements.last {reported : Bool}
    (h : Emitting π rec (fun r ↦ bodyStep Γ r reported) s (.inr span) s') :
    WritesStatements π Γ reported s s' := by
  obtain ⟨token, s₁, h₁, h⟩ := h.bind
  have hk := keeps_next h₁.const
  rcases h.ite with ⟨-, h⟩ | ⟨-, h⟩
  · cases h.const
    refine ⟨[], .nil hk, fun _ _ _ _ ↦ ⟨fun hs ↦ ?_, fun ⟨item, hm, _⟩ ↦ nomatch hm⟩⟩
    exact (congrArg Context.hasReturned hk.context).trans hs
  obtain ⟨_, s₂, h₂, h⟩ := h.bind
  rcases h.ite with ⟨-, h⟩ | ⟨-, h⟩
  · cases h.const
  obtain ⟨dead?, s₃, h₃, h⟩ := h.bind
  obtain ⟨rfl, hdead⟩ := deadStatement?_ok h₃.const
  cases dead? with
  | none => cases h.const
  | some dead =>
    obtain ⟨_, s₄, h₄, h⟩ := h.bind
    rcases h.ite with ⟨-, h⟩ | ⟨-, h⟩
    · cases h.const
    obtain ⟨ending, s₅, h₅, h⟩ := h.bind
    cases h.const
    -- code behind a statement that does not come back is skipped, with a warning
    have hk' := (keeps_warn h₄.const).trans (keeps_skipBody h₅)
    obtain ⟨o, ho, -⟩ := writes_statement h₂
    have hw := (Writes.of_keeps hk ho).append (.nil hk')
    rw [List.append_nil] at hw
    have hreturned : s₂.frame.hasReturned := by
      by_contra hn
      rw [if_neg hn] at hdead
      cases hdead
    have hend : s'.frame.hasReturned := (congrArg Context.hasReturned hk'.context).trans hreturned
    exact ⟨o, hw, fun _ _ _ _ ↦ ⟨fun _ ↦ hend, fun _ ↦ hend⟩⟩

/-- Any other step is a statement. -/
theorem WritesStatements.next {reported reported' : Bool} {s₁ : State}
    (h : Emitting π rec (fun r ↦ bodyStep Γ r reported) s (.inl reported') s₁)
    (ih : WritesStatements π Γ reported' s₁ s') : WritesStatements π Γ reported s s' := by
  obtain ⟨o', ho', ih⟩ := ih
  obtain ⟨token, s₂, h₂, h⟩ := h.bind
  have hk := keeps_next h₂.const
  rcases h.ite with ⟨-, h⟩ | ⟨hclose, h⟩
  · cases h.const
  obtain ⟨_, s₃, h₃, h⟩ := h.bind
  obtain ⟨o, ho, hle⟩ := writes_statement h₃
  have hw := Writes.of_keeps hk ho
  rcases h.ite with ⟨hrep, h⟩ | ⟨-, h⟩
  · cases h.const
    exact ⟨o ++ o', hw.append ho', fun _ _ hn ↦ nomatch hrep.symm.trans hn⟩
  obtain ⟨dead?, s₄, h₄, h⟩ := h.bind
  obtain ⟨rfl, hdead⟩ := deadStatement?_ok h₄.const
  cases dead? with
  | none =>
    cases h.const
    have hend : s₁.frame.hasReturned → AtClose s₁ := by
      intro hr token ht
      rw [if_pos hr, ht, Option.filter_some] at hdead
      by_contra hn
      rw [if_pos (by simpa using hn)] at hdead
      cases hdead
    refine ⟨o ++ o', hw.append ho', fun hΓ hd _ hs ↦ ?_⟩
    obtain ⟨hkeep, hnew⟩ := ih hΓ hd rfl hend
    refine ⟨fun hr ↦ absurd (hs hr token (next_ok h₂.const)) hclose, fun ⟨item, hm, hr⟩ ↦ ?_⟩
    rcases List.mem_append.mp hm with hm | hm
    -- a statement emits one item, and behind a return the flag is up
    · obtain ⟨i, rfl⟩ := List.length_eq_one_iff.mp
        (Nat.le_antisymm hle (List.length_pos_of_mem hm))
      obtain rfl := List.mem_singleton.mp hm
      exact hkeep ((hw.emits.returned hΓ).trans (item.returned_of_isReturn hr _))
    · exact hnew ⟨item, hm, hr⟩
  | some dead =>
    obtain ⟨_, s₅, h₅, h⟩ := h.bind
    rcases h.ite with ⟨hd, h⟩ | ⟨-, h⟩
    · cases h.const
      have hw' := hw.append (.nil (keeps_warn h₅.const))
      rw [List.append_nil] at hw'
      exact ⟨o ++ o', hw'.append ho', fun _ hn ↦ nomatch hd.symm.trans hn⟩
    · obtain ⟨ending, s₆, h₆, h⟩ := h.bind
      cases h.const

theorem writes_bodyStatements (h : Emitting π rec (fun r ↦ bodyStatements Γ r) s span s') :
    WritesStatements π Γ false s s' := by
  simp only [bodyStatements_eq] at h
  exact h.repeatUntil (Q := fun reported s _ s' ↦ WritesStatements π Γ reported s s')
    (fun _ _ _ _ h ↦ .last h) fun _ _ _ _ _ _ h ih ↦ .next h ih

theorem wrote_bodyStatements (h : Emitting π rec (fun r ↦ bodyStatements Γ r) s span s') :
    WroteSome π Γ s s' := by
  obtain ⟨o, ho, -⟩ := writes_bodyStatements h
  exact ⟨o, ho⟩

/-! ## Bodies -/

theorem leaveBody_ok {firstTaken outerSlots : Nat} {summary : Summary}
    (h : leaveBody Γ firstTaken outerSlots span s = .ok summary s') :
    Keeps s s' ∧ Γ.Accepts s'.context ∧ summary = ⟨s'.frame.slotCount, s'.frame.usesSelf⟩ := by
  obtain ⟨_, s₁, h₁, h⟩ := bind_ok h
  cases h₁
  obtain ⟨_, s₂, h₂, h⟩ := bind_ok h
  obtain ⟨f, s₃, h₃, h⟩ := bind_ok h
  cases h₃
  obtain ⟨_, s₄, h₄, h⟩ := bind_ok h
  obtain ⟨hreturned, rfl⟩ := require_ok h₄
  obtain ⟨_, s₅, h₅, h⟩ := bind_ok h
  obtain ⟨rfl, hcomplete⟩ := requireComplete_ok h₅
  obtain ⟨f, s₆, h₆, h⟩ := bind_ok h
  cases h₆
  obtain ⟨_, s₇, h₇, h⟩ := bind_ok h
  obtain ⟨hcalled, rfl⟩ := require_ok h₇
  obtain ⟨f, s₈, h₈, h⟩ := bind_ok h
  cases h₈
  obtain ⟨rfl, rfl⟩ := pure_ok h
  refine ⟨keeps_recommendFrozen h₂, ⟨fun hi ↦ ⟨span, hcomplete hi⟩, fun hi ↦ ?_, fun hr ↦ ?_⟩, rfl⟩
  · obtain ⟨hini, hsuper⟩ := Bool.and_eq_true_iff.mp hi
    rw [← Option.not_isSome, hini, hsuper] at hcalled
    exact hcalled
  · rw [hr] at hreturned
    exact hreturned

/-- Recommending variables to freeze adds warnings, and changes nothing else. -/
theorem recommendFrozen_eq (Γ : Setting) (candidates : List Variable) (s : State) :
    recommendFrozen Γ candidates s = .ok () { s with session := { s.session with
      warnings := s.session.warnings ++ if Γ.options.recommendsFrozen then
        (candidates.map (·.recommendation)).toArray else #[] } } := by
  unfold recommendFrozen
  split
  · induction candidates generalizing s with
    | nil =>
      rw [List.map_nil, Array.append_empty]
      rfl
    | cons v candidates ih =>
      refine (ih { s with session := s.session.warn v.recommendation }).trans ?_
      rw [List.map_cons, Session.warn, ← Array.append_singleton, Array.append_assoc]
      simp only [List.append_toArray, List.singleton_append]
  · rw [Array.append_empty]
    rfl

/-- Recommending variables to freeze changes nothing but the warnings. -/
theorem exists_recommendFrozen (Γ : Setting) (candidates : List Variable) (s : State) :
    ∃ session, recommendFrozen Γ candidates s = .ok () { s with session } :=
  ⟨_, recommendFrozen_eq Γ candidates s⟩

/-- A body that is no initializer is asked for a return at its end, and for nothing else. -/
theorem exists_leaveBody (hΓ : Γ.initializer? = none) (first outerSlots : Nat) (ending : Span)
    (s : State) :
    ∃ session, leaveBody Γ first outerSlots ending s
      = if Γ.result.isNothingness || s.frame.hasReturned then
          .ok ⟨s.frame.slotCount, s.frame.usesSelf⟩ { s with session }
        else .error (Cause.missingReturn.at ending) { s with session } := by
  obtain ⟨session, hrecommend⟩ := exists_recommendFrozen Γ (s.environment.current.freezable.filter
    fun v ↦ v.slot < first || first + outerSlots ≤ v.slot) s
  have hget : (get : Analysis State) s = .ok s s := rfl
  have hframe : frame { s with session } = .ok s.frame { s with session } := rfl
  refine ⟨session, (bind_of_ok hget).trans ((bind_of_ok hrecommend).trans
    ((bind_of_ok hframe).trans ?_))⟩
  cases Γ.result.isNothingness || s.frame.hasReturned with
  | false => rfl
  | true =>
    have hreturned : require true .missingReturn ending { s with session }
        = .ok () { s with session } := rfl
    have hcomplete : requireComplete Γ ending { s with session } = .ok () { s with session } := by
      rw [requireComplete, hΓ]
      rfl
    refine (bind_of_ok hreturned).trans ((bind_of_ok hcomplete).trans ?_)
    rw [hΓ]
    rfl

/-- What there is to know about a body is in the books of its frame. -/
theorem summary_of_body {arguments : List Argument} {captured : List Variable}
    {outerSlots : Nat} {summary : Summary}
    (h : body Γ rec arguments captured outerSlots s = .ok summary s') :
    summary = ⟨s'.frame.slotCount, s'.frame.usesSelf⟩ := by
  obtain ⟨_, s₁, -, h⟩ := bind_ok h
  obtain ⟨_, s₂, -, h⟩ := bind_ok h
  obtain ⟨_, s₃, -, h⟩ := bind_ok h
  obtain ⟨_, s₄, -, h⟩ := bind_ok h
  exact (leaveBody_ok h).2.2

/-- A body has as many slots as were handed out in it. -/
theorem slotCount_of_body {arguments : List Argument} {captured : List Variable}
    {outerSlots : Nat} {summary : Summary}
    (h : body Γ rec arguments captured outerSlots s = .ok summary s') :
    summary.slotCount = s'.frame.slotCount := congrArg (·.slotCount) (summary_of_body h)

/-- The arguments of a body take slots that may be handed out. -/
theorem length_arguments_le {arguments : List Argument} {captured : List Variable}
    {outerSlots : Nat} {summary : Summary}
    (h : body Γ rec arguments captured outerSlots s = .ok summary s')
    (hs : s.frame.slotCount = 0) : arguments.length ≤ Γ.slotBound := by
  obtain ⟨_, s₁, h₁, h⟩ := bind_ok h
  cases h₁
  obtain ⟨_, s₂, h₂, -⟩ := bind_ok h
  obtain ⟨vs, -, hslots, hbounds, -⟩ := declares_arguments h₂
  rw [show s.context.slotCount = 0 from hs] at hslots
  exact length_le_of_slots hslots hbounds

/-- **A body emits by the rules**, from a context that a body starts in. Its arguments are frozen
there, and behind them there are copies of what it takes over. -/
theorem wrote_body {arguments : List Argument} {captured : List Variable} {outerSlots : Nat}
    {fields : Option Scope} {summary : Summary}
    (hs : s.context = ⟨.start fields, 0, 0, false, false⟩)
    (h : Emitting π rec (fun r ↦ body Γ r arguments captured outerSlots) s summary s') :
    ∃ o c₀, Emits π.toPins Γ (.code o) s.offset c₀ s'.context
      ∧ Outline.Expressions π o s.offset
      ∧ s'.listing = s.listing ++ Outline.entries o ∧ s'.holes = s.holes
      ∧ ((captured.map (·.slot)).Nodup → (∀ v ∈ captured, v.slot < outerSlots) →
        c₀.IsStart (arguments.length + outerSlots))
      ∧ c₀.flowDepth = 0 ∧ c₀.calledSuper = false ∧ c₀.hasReturned = false
      ∧ c₀.environment.fields = fields ∧ Γ.Accepts s'.context ∧ c₀.Below Γ.slotBound
      ∧ arguments.length ≤ Γ.slotBound
      ∧ ∀ v, c₀.environment.Holds .frame v → v.slot < arguments.length ∧ v.isFrozen
        ∨ ∃ u ∈ captured, v = u.copyBehind arguments.length := by
  obtain ⟨here', s₁, h₁, h⟩ := h.bind
  obtain ⟨_, s₂, h₂, h⟩ := h.bind
  obtain ⟨first, s₃, h₃, h⟩ := h.bind
  obtain ⟨ending, s₄, h₄, h⟩ := h.bind
  obtain ⟨hk, haccepts, -⟩ := leaveBody_ok h.const
  cases h₁.const
  obtain ⟨vs, hvs, hargs, hbounds, -, hfrozen⟩ := declares_arguments h₂.const
  obtain ⟨vs', hvs', hsub, hbounds', -, hcopies⟩ := declares_takeOver h₃.const
  have hdecl := hvs.trans hvs'
  obtain ⟨o, ho⟩ := wrote_bodyStatements h₄
  have hoff : s₃.offset = s.offset := State.offset_congr hdecl.listing
  have he := ho.emits
  have hx := ho.expressions
  rw [hoff] at he hx
  rw [← hk.context] at he
  -- the statements start with the arguments and what is taken over, and nothing else
  have henv : s.environment = .start fields := congrArg Context.environment hs
  have hc : s₃.context = ⟨{ Environment.start fields with current := ⟨vs ++ vs'⟩ },
      arguments.length + outerSlots, 0, false, false⟩ := by
    rw [hdecl.context, hs, henv]
    simp only [Context.addSlots, Context.withEnvironment, Nat.zero_add]
    rfl
  have hslots : s₂.context.slotCount = arguments.length := by
    rw [hvs.context, hs]
    exact Nat.zero_add _
  rw [hs] at hargs
  rw [hslots] at hsub hcopies
  refine ⟨o, s₃.context, he, hx, ?_, ?_, fun hnodup hlt ↦ ?_, ?_, ?_, ?_, ?_, haccepts, ?_, ?_, ?_⟩
  · rw [hk.listing, ho.listing, hdecl.listing, List.append_nil]
  · rw [hk.holes, ho.holes, hdecl.holes]
  · rw [hc]
    exact isStart_of_taken rfl rfl rfl hargs hsub hnodup hlt
  · rw [hc]
  · rw [hc]
  · rw [hc]
  · rw [hc]
    rfl
  · rw [hc]
    rintro v ⟨sc, hsc, hv⟩
    obtain rfl := List.mem_singleton.mp hsc
    exact (List.mem_append.mp hv).elim (hbounds v) (hbounds' v)
  · exact length_le_of_slots hargs hbounds
  · rw [hc]
    rintro v ⟨sc, hsc, hv⟩
    obtain rfl := List.mem_singleton.mp hsc
    refine (List.mem_append.mp hv).imp (fun hv ↦ ⟨?_, hfrozen v hv⟩) (hcopies v)
    have hslot := List.mem_map_of_mem (f := (·.slot)) hv
    rw [hargs, List.mem_range'_1] at hslot
    exact Nat.lt_of_lt_of_eq hslot.2 (Nat.zero_add _)

/-! ## The heading of a closure -/

theorem keeps_closureArguments {arguments : List Argument}
    (h : closureArguments Γ s = .ok arguments s') : Keeps s s' := by
  -- the heading asks nothing, whatever the expressions are
  have hrun : Yields (fun _ _ _ ↦ throw .exhausted) _ (fun _ ↦ closureArguments Γ) s arguments
      s' := .of_run h
  refine hrun.repeatUntil (Q := fun _ s _ s' ↦ Keeps s s') ?_ ?_
  · intro arguments s result s' h
    obtain ⟨x?, s₁, h₁, h⟩ := h.bind
    cases x? with
    | none =>
      obtain ⟨-, rfl⟩ := pure_ok h.const
      exact keeps_reading h₁.const
    | some x =>
      obtain ⟨_, s₂, h₂, h⟩ := h.bind
      cases h.const
  · intro arguments s arguments' s₁ result s' h ih
    obtain ⟨x?, s₂, h₂, h⟩ := h.bind
    cases x? with
    | none => cases h.const
    | some x =>
      obtain ⟨⟨type, dynamic⟩, s₃, h₃, h⟩ := h.bind
      cases h.const
      exact (keeps_reading h₂.const).trans ((keeps_annotated h₃.const).trans ih)

theorem keeps_closureResult (h : closureResult Γ s = .ok t s') : Keeps s s' := by
  obtain ⟨arrow?, s₁, h₁, h⟩ := bind_ok h
  refine (keeps_reading h₁).trans ?_
  split at h
  · obtain ⟨_, s₂, h₂, h⟩ := bind_ok h
    obtain ⟨-, rfl⟩ := pure_ok h
    exact keeps_annotated h₂
  · obtain ⟨-, rfl⟩ := pure_ok h
    exact .refl _

/-- The heading of a closure is read without anything else. -/
theorem keeps_heading {arguments : List Argument} {s₁ s₂ : State} {result : Ty}
    (h₁ : closureArguments Γ s = .ok arguments s₁) (h₂ : closureResult Γ s₁ = .ok result s₂) :
    Keeps s s₂ := (keeps_closureArguments h₁).trans (keeps_closureResult h₂)

/-! ## The steps of a closure -/

/-- An analysis that runs in a frame of its own. The local scopes and the frame around it are put
back. -/
theorem inFrame_ok {α : Type} {P : Query → State → Prop} {m : Recursion → Analysis α} {a : α}
    (h : Yields rec P (fun r ↦ inFrame (m r)) s a s') :
    ∃ inner, Yields rec P m
        { s with environment := .start s.environment.fields, frame := {} } a inner
      ∧ s' = { inner with
        environment := { s.environment with fields := inner.environment.fields }
        frame := s.frame } := by
  obtain ⟨outer, s₁, h₁, h⟩ := h.bind
  cases h₁.const
  obtain ⟨_, s₂, h₂, h⟩ := h.bind
  cases h₂.const
  obtain ⟨a', inner, h₃, h⟩ := h.bind
  obtain ⟨_, s₄, h₄, h⟩ := h.bind
  cases h₄.const
  obtain ⟨rfl, rfl⟩ := pure_ok h.const
  exact ⟨inner, h₃, rfl⟩

/-- What a closure does besides running its body: in front of it two words are reserved, and behind
it two words are written and those that were reserved are filled. The local scopes and the frame
around it are put back, and only take over whether the closure refers to the instance. -/
theorem closure_ok {P : Query → State → Prop}
    (h : Yields rec P (fun r ↦ closure Γ r) s t s') :
    ∃ arguments s₁ result s₂, closureArguments Γ s = .ok arguments s₁
      ∧ closureResult Γ s₁ = .ok result s₂
      ∧ ∃ summary inner b,
        Yields rec P (fun r ↦ body (Γ.ofClosure result) r arguments s₂.environment.visible
          s₂.frame.slotCount) s₂.enterClosure summary inner
        ∧ inner.assembler.fillCount? ⟨(s₂.assembler.opcode .closure).appendHole.chunk.size⟩ = some b
        ∧ ((b.word (closureWord arguments.length summary.usesSelf)).word
            (.ofNat s₂.frame.slotCount)).fill? ⟨(s₂.assembler.opcode .closure).chunk.size⟩
              (.ofNat summary.slotCount) = some s'.assembler
        ∧ s'.environment = { s₂.environment with fields := inner.environment.fields }
        ∧ s'.frame = { s₂.frame with usesSelf := s₂.frame.usesSelf || summary.usesSelf }
        ∧ t = .callable result (arguments.map (·.type)) := by
  obtain ⟨arguments, s₁, h₁, h⟩ := h.bind
  obtain ⟨result, s₂, h₂, h⟩ := h.bind
  refine ⟨arguments, s₁, result, s₂, h₁.const, h₂.const, ?_⟩
  obtain ⟨_, s₃, h₃, h⟩ := h.bind
  cases h₃.const
  obtain ⟨slots, s₄, h₄, h⟩ := h.bind
  cases h₄.const
  obtain ⟨count, s₅, h₅, h⟩ := h.bind
  cases h₅.const
  obtain ⟨_, s₆, h₆, h⟩ := h.bind
  cases h₆.const
  obtain ⟨_, s₇, h₇, h⟩ := h.bind
  cases h₇.const
  obtain ⟨summary, s₈, h₈, h⟩ := h.bind
  obtain ⟨inner, hbody, rfl⟩ := inFrame_ok h₈
  obtain ⟨_, s₉, h₉, h⟩ := h.bind
  obtain ⟨b, hb, rfl⟩ := filling_ok h₉.const
  refine ⟨summary, inner, b, hbody, hb, ?_⟩
  rcases h.ite with ⟨hself, h⟩ | ⟨hself, h⟩
  · obtain ⟨_, s₁₀, h₁₀, h⟩ := h.bind
    cases h₁₀.const
    obtain ⟨_, s₁₁, h₁₁, h⟩ := h.bind
    cases h₁₁.const
    obtain ⟨_, s₁₂, h₁₂, h⟩ := h.bind
    cases h₁₂.const
    obtain ⟨_, s₁₃, h₁₃, h⟩ := h.bind
    obtain ⟨b', hb', rfl⟩ := filling_ok h₁₃.const
    obtain ⟨rfl, rfl⟩ := pure_ok h.const
    rw [hself, Bool.or_true]
    exact ⟨hb', rfl, rfl, rfl⟩
  · obtain ⟨_, s₁₀, h₁₀, h⟩ := h.bind
    cases h₁₀.const
    obtain ⟨_, s₁₁, h₁₁, h⟩ := h.bind
    cases h₁₁.const
    obtain ⟨_, s₁₂, h₁₂, h⟩ := h.bind
    obtain ⟨b', hb', rfl⟩ := filling_ok h₁₂.const
    obtain ⟨rfl, rfl⟩ := pure_ok h.const
    rw [eq_false_of_ne_true hself, Bool.or_false]
    exact ⟨hb', rfl, rfl, rfl⟩

/-- **The words of a closure.** In front of its code stand the number of its slots and the number of
the words of the code, and behind it stand the number of its arguments, with the flag, and the
number of slots around it. -/
theorem listing_of_closure {arguments : List Argument} {s₂ inner : State} {summary : Summary}
    {b : Assembler} {code : List Entry}
    (hlisting : inner.listing = s₂.enterClosure.listing ++ code)
    (hholes : inner.holes = s₂.enterClosure.holes)
    (hfill : inner.assembler.fillCount?
      ⟨(s₂.assembler.opcode .closure).appendHole.chunk.size⟩ = some b)
    (hslots : ((b.word (closureWord arguments.length summary.usesSelf)).word
      (.ofNat s₂.frame.slotCount)).fill? ⟨(s₂.assembler.opcode .closure).chunk.size⟩
        (.ofNat summary.slotCount) = some s'.assembler) :
    s'.listing = s₂.listing ++ Opcode.closure.entry :: immediateNumber summary.slotCount
      :: immediateNumber code.length :: (code
        ++ [immediate (closureWord arguments.length summary.usesSelf),
          immediateNumber s₂.frame.slotCount])
      ∧ s'.holes = s₂.holes := by
  -- the states behind the opcode and behind the first reserved word
  let opened : State := { s₂ with assembler := s₂.assembler.opcode .closure }
  let counting : State := { opened with assembler := opened.assembler.appendHole }
  let numbered : Assembler := (b.word (closureWord arguments.length summary.usesSelf)).word
    (.ofNat s₂.frame.slotCount)
  have hopened : Adds [Opcode.closure.entry] s₂ opened := adds_emit (u := ()) rfl
  have hslotsHole : Inside [] opened counting := ⟨listing_pushWord _ _ _, rfl⟩
  have hcountHole : Inside [] counting s₂.enterClosure := ⟨listing_pushWord _ _ _, rfl⟩
  have hcount : fillCount ⟨counting.assembler.chunk.size⟩ inner
      = .ok () { inner with assembler := b } := filling_of_some hfill
  have hcounted := filled_fillCount (hcountHole.adds hlisting hholes) rfl hcount
  have hbehind : Adds [immediate (closureWord arguments.length summary.usesSelf),
      immediateNumber s₂.frame.slotCount] { inner with assembler := b }
      { inner with assembler := numbered } :=
    (adds_word (u := ()) rfl).trans (adds_number (u := ()) rfl)
  have hnumber : fill ⟨opened.assembler.chunk.size⟩ (.ofNat summary.slotCount)
      { inner with assembler := numbered } = .ok () { inner with assembler := s'.assembler } :=
    filling_of_some hslots
  have hfilled := filled_fill ((hslotsHole.adds hcounted.listing hcounted.holes).adds
    hbehind.listing hbehind.holes) rfl hnumber
  have hlisting' : s'.listing = opened.listing ++ _ := hfilled.listing
  refine ⟨?_, hfilled.holes⟩
  rw [hlisting', hopened.listing, List.append_assoc]
  rfl

/-- The body of a closure goes through the steps of the closure. At the end nothing changes but the
warnings. -/
theorem encloses_of_body {arguments : List Argument} {s₁ s₂ inner : State} {result : Ty}
    {summary : Summary} (h₁ : closureArguments Γ s = .ok arguments s₁)
    (h₂ : closureResult Γ s₁ = .ok result s₂)
    (h : body (Γ.ofClosure result) rec arguments s₂.environment.visible s₂.frame.slotCount
      s₂.enterClosure = .ok summary inner) :
    ∃ entry ending session, Encloses Γ rec s arguments entry ending
      ∧ summary = ⟨ending.frame.slotCount, ending.frame.usesSelf⟩
      ∧ inner = { ending with session } := by
  obtain ⟨span, s₃, h₃, h⟩ := bind_ok h
  cases h₃
  obtain ⟨_, s₄, h₄, h⟩ := bind_ok h
  obtain ⟨first, entry, h₅, h⟩ := bind_ok h
  obtain ⟨close, ending, h₆, h⟩ := bind_ok h
  obtain ⟨session, hleave⟩ := exists_leaveBody (Γ := Γ.ofClosure result) rfl first
    s₂.frame.slotCount close ending
  rw [hleave] at h
  split at h
  · cases h
    exact ⟨entry, ending, session, .intro h₁ h₂ h₄ h₅ h₆, rfl, rfl⟩
  · cases h

/-- **A closure emits by the rules**, and it returns as the return type in its own type asks. -/
theorem wrote_closure (hs : π.spans s.offset s'.offset)
    (hframes : ∀ arguments entry ending, Encloses Γ rec s arguments entry ending →
      π.frames s.offset ending.frame.slotCount s.frame.slotCount)
    (hcaptures : ∀ result arguments, t = .callable result arguments →
      π.captures s.offset arguments.length s.context)
    (hreturns : ∀ result arguments, t = .callable result arguments → π.returns s.offset result)
    (h : Emitting π rec (fun r ↦ closure Γ r) s t s') : Wrote π Γ 1 s s' := by
  obtain ⟨arguments, s₁, result, s₂, h₁, h₂, summary, inner, b, hbody, hfill, hslots,
    henvironment, hframe, ht⟩ := closure_ok h
  have hhead := keeps_heading h₁ h₂
  obtain ⟨o, c₀, he, hx, hlb, hhb, hstart, hd, hb, hflag, hfields, haccepts, hbelow, -, hheld⟩ :=
    wrote_body rfl hbody
  obtain ⟨hlisting, hholes⟩ := listing_of_closure hlb hhb hfill hslots
  have hoffset : s₂.enterClosure.offset = s.offset + 3 := by
    rw [State.offset_enterClosure, hhead.offset, List.length_nil, Nat.add_zero]
  rw [hoffset] at he hx
  have hcount : s₂.frame.slotCount = s.context.slotCount :=
    congrArg Context.slotCount hhead.context
  have hscopes : s₂.environment = s.context.environment :=
    congrArg Context.environment hhead.context
  have hstart' (hd : s.context.Distinct) : c₀.IsStart (arguments.length + s₂.frame.slotCount) := by
    obtain ⟨hnodup, hlt⟩ := Environment.Distinct.visible hd
    rw [← hscopes] at hnodup hlt
    rw [← hcount] at hlt
    exact hstart hnodup hlt
  have hend : s'.context = s.context.withFields inner.context.environment.fields := by
    rw [← hhead.context]
    simp only [State.context, henvironment, hframe]
    rfl
  -- the setting of a closure is that around it, but it is no initializer
  have hstatic : (Γ.ofClosure result).isStatic = Γ.isStatic := rfl
  have hini : (Γ.ofClosure result).initializer? = none := rfl
  have hbound : (Γ.ofClosure result).slotBound = Γ.slotBound := rfl
  have hw : Written π.toPins Γ [.closure summary.slotCount o arguments.length summary.usesSelf
      s₂.frame.slotCount] s s' := by
    refine ⟨?_, ?_, hholes.trans hhead.holes⟩
    · rw [hend, slotCount_of_body hbody.run]
      refine .closure hstatic hini hstart' hd hb
        (hfields.trans (congrArg Environment.fields hscopes)) hbound hbelow (fun hd ↦ ?_)
        (List.length_map _ ▸ hcaptures _ _ ht) he
      exact handsOver_of_copies hd ((hstart' hd).slotCount.trans (congrArg _ hcount))
        (hscopes ▸ hheld)
    · rw [hlisting, hhead.listing, List.append_nil, Outline.entries_singleton]
      rfl
  have hreturned : (Γ.ofClosure result).result.isNothingness = false → inner.context.hasReturned :=
    haccepts.hasReturned
  have hlength : arguments.length ≤ Slot.count :=
    Nat.le_trans (length_arguments_le hbody.run rfl) (Nat.min_le_right _ _)
  obtain ⟨entry, ending, session, hencloses, rfl, -⟩ := encloses_of_body h₁ h₂ hbody.run
  have hframe' : s₂.frame.slotCount = s.frame.slotCount := hcount
  have hframes' : π.frames s.offset ending.frame.slotCount s₂.frame.slotCount :=
    hframe' ▸ hframes arguments entry ending hencloses
  exact .single hs hw (fun hs ↦ ⟨hlength, hframes', hs, hx.follows⟩) hx.laid
    ⟨⟨result, hreturns _ _ ht, he.returnsAs hini hx.returnsProperly hflag hreturned⟩,
      hx.returnsProperly⟩ fun heffect ↦ ⟨rfl, by
        rw [hframe]
        exact hhead.effect heffect⟩

end Analysis

end Pictograph
