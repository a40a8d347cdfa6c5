import Pictograph.Proofs.Compilation.FrameSlots

/-!
# The slot limit

Slot numbers are a single byte, and the options may set a lower limit. The limit is checked where a
slot is handed out: for arguments, for variables of the body, and for copies of the variables that a
closure captures. So every slot that the code names can be addressed, and the frame of a body keeps
to the limit, because all its slots were handed out.

The frame of a closure takes over the whole frame around it, also the slots of variables that are
hidden or out of reach. These are not handed out and nobody checks them. They can push the frame of
a closure beyond the limit, but then the closure has no slots of its own: the next one would be
beyond the limit, too, and would be refused.

## Main definitions

* `Outline.Limited`: the slots named in an outline are below a bound, in all frames, and the frames
  of closures keep to it but for what they took over.
* `HandedOut`: how the number of slots may grow when slots are handed out below a bound.
* `Context.Placed`: the variables in reach have slots of their own, and those are below a bound.

## Main results

* `Emits.handedOut`: new slots are handed out only below the bound.
* `Emits.limited`: all slots that are named are below the bound.
* `slots_within_limit`: what holds of the frames of an accepted body.
* `closure_beyond_limit`: the frame of a closure can be larger than the limit.
-/

namespace Pictograph

mutual

/-- All slots that an item names, in its frame and in those of closures, are below a bound. The
number of slots of a closure keeps to the bound, unless the arguments and what was taken over are
more; then it has no other slots. -/
def Item.Limited (bound : Nat) : Item → Prop
  | .instruction op _ receiver words operands =>
    (op.namesSlots → ∀ w ∈ words, w.toNat < bound)
      ∧ Outline.Limited bound receiver ∧ Outline.Limited bound operands
  | .ifChain condition body rest | .elseIf condition body rest =>
    Outline.Limited bound condition ∧ Outline.Limited bound body ∧ Outline.Limited bound rest
  | .otherwise body => Outline.Limited bound body
  | .repeatWhile condition body => Outline.Limited bound condition ∧ Outline.Limited bound body
  | .forIn _ slot hidden iteratee body =>
    (slot < bound ∧ hidden < bound) ∧ Outline.Limited bound iteratee ∧ Outline.Limited bound body
  | .closure slots body arguments _ captured =>
    arguments + captured ≤ slots ∧ (slots ≤ bound ∨ slots = arguments + captured)
      ∧ Outline.Limited bound body

/-- All slots that an outline names are below a bound, and the frames of its closures keep to it but
for what they took over. -/
def Outline.Limited (bound : Nat) : List Item → Prop
  | [] => True
  | item :: rest => item.Limited bound ∧ Outline.Limited bound rest

end

namespace Outline

theorem Limited.append {bound : Nat} {o o' : Outline} (h : Limited bound o)
    (h' : Limited bound o') : Limited bound (o ++ o') := by
  induction o with
  | nil => exact h'
  | cons item o ih => exact ⟨h.1, ih h.2⟩

theorem limited_singleton {bound : Nat} {item : Item} :
    Limited bound [item] ↔ item.Limited bound := iff_of_eq (and_true _)

/-- An instruction whose immediate word may be a slot, with its operands behind it. -/
theorem limited_plain {bound slot : Nat} {op : Opcode} {o : Outline}
    (hs : op.namesSlots → slot < bound) (ho : Limited bound o) :
    Limited bound [.plain op [UInt32.ofNat slot] o] := by
  refine limited_singleton.mpr ⟨fun hn w hw ↦ ?_, trivial, ho⟩
  obtain rfl := List.mem_singleton.mp hw
  exact Nat.lt_of_le_of_lt (Nat.mod_le _ _) (hs hn)

end Outline

/-- All slots that a piece of code names are below a bound. -/
def Part.Limited (bound : Nat) : Part → Prop
  | .code o | .chain o _ _ => Outline.Limited bound o

/-! ## Handing out slots -/

/-- Slots are handed out only below a bound: of `n` slots there are `n'` in the end, which is within
the bound unless nothing was handed out. -/
def HandedOut (bound n n' : Nat) : Prop := n' ≤ bound ∨ n' = n

namespace HandedOut

variable {bound n n' n'' : Nat}

theorem refl (bound n : Nat) : HandedOut bound n n := .inr rfl

theorem trans (h : HandedOut bound n n') (h' : HandedOut bound n' n'') :
    HandedOut bound n n'' := by
  rcases h' with h' | rfl
  · exact .inl h'
  · exact h

/-- The next slots are below the bound. -/
theorem add {k : Nat} (h : n + k ≤ bound) : HandedOut bound n (n + k) := .inl h

end HandedOut

/-- **New slots are handed out only below the bound.** -/
theorem Emits.handedOut {π : Pins} {Γ : Setting} {part : Part} {k : Nat} {c c' : Context}
    (h : Emits π Γ part k c c') : HandedOut Γ.slotBound c.slotCount c'.slotCount := by
  induction h with
  | nil | load | step | selfReference | chainEnd | closure => exact .refl _ _
  | append _ _ ih₁ ih₂ | ordinary _ _ _ ih₁ ih₂ => exact ih₁.trans ih₂
  | declare hs hl =>
    rw [hs] at hl
    exact .add hl
  | introduce _ hs hl _ _ _ _ _ ih =>
    rw [hs] at hl
    exact (HandedOut.add hl).trans ih
  | assign _ _ _ _ _ ih => exact ih
  | superInitializer _ _ _ _ ih => exact ih
  | returning _ _ ih => exact ih
  | @ifChain Γ k c c₁ c₂ c₃ reports isTotal condition body rest _ _ _ ih₁ ih₂ ih₃ =>
    have h := (ih₁.trans ih₂).trans ih₃
    cases isTotal with
    | false => exact h
    | true => exact h
  | otherwise _ ih => exact ih
  | elseIf _ _ _ ih₁ ih₂ ih₃ => exact (ih₁.trans ih₂).trans ih₃
  | repeatWhile _ _ ih₁ ih₂ => exact ih₁.trans ih₂
  | forIn hs hl _ _ _ _ _ ih₁ ih₂ =>
    rw [hs] at hl
    exact ((HandedOut.add hl).trans ih₁).trans ih₂

/-! ## Variables below the bound -/

namespace Context.Below

variable {bound : Nat} {c c' : Context}

theorem enterScope (h : c.Below bound) : c.enterScope.Below bound :=
  fun v hv ↦ h v (Environment.holds_push.mp hv)

theorem enterBlock (h : c.Below bound) (withFields : Bool) :
    (c.enterBlock withFields).Below bound := by
  intro v' hv'
  obtain ⟨v, hv, rfl⟩ := Environment.holds_of_shift hv' (.inl rfl)
  rw [Variable.shift_slot]
  exact h v hv

/-- Variables that are new are in slots that were handed out. -/
theorem grows (h : c.Below bound) (hg : c.Grows c')
    (hn : HandedOut bound c.slotCount c'.slotCount) : c'.Below bound := by
  intro v' hv'
  rcases hg.environment.holds hv' with ⟨v, hv, he⟩ | ⟨-, hlo, hhi, -⟩
  · rw [he.slot]
    exact h v hv
  · rcases hn with hn | hn <;> omega

/-- A variable within reach is in a slot below the bound. -/
theorem slot_lt {x : String} {st : Storage} {v : Variable} {action : Access} (h : c.Below bound)
    (hx : c.environment.resolve? x = some (st, v))
    (hn : (Opcode.access st action).namesSlots) : v.slot < bound := by
  obtain rfl := Opcode.storage_of_namesSlots hn
  exact h v (Environment.holds_of_resolve? hx)

end Context.Below

/-- The variables in reach have slots of their own, and those of the frame are below a bound. -/
structure Context.Placed (bound : Nat) (c : Context) : Prop where
  distinct : c.Distinct
  below : c.Below bound

namespace Context.Placed

variable {bound : Nat} {c c' : Context}

theorem grows (h : c.Placed bound) (hg : c.Grows c')
    (hn : HandedOut bound c.slotCount c'.slotCount) : c'.Placed bound :=
  ⟨h.distinct.grows hg, h.below.grows hg hn⟩

theorem addSlots (h : c.Placed bound) (n : Nat) : (c.addSlots n).Placed bound :=
  ⟨h.distinct.addSlots n, h.below⟩

theorem enterScope (h : c.Placed bound) : c.enterScope.Placed bound :=
  ⟨h.distinct.enterScope, h.below.enterScope⟩

theorem enterBlock (h : c.Placed bound) (withFields : Bool) :
    (c.enterBlock withFields).Placed bound :=
  ⟨h.distinct.enterBlock withFields, h.below.enterBlock withFields⟩

/-- Variables may be written. -/
theorem mutate {x : String} {st : Storage} {v mutated : Variable} {span : Span}
    (h : c.Placed bound) (hx : c.environment.resolve? x = some (st, v))
    (hm : v.mutate span = .ok mutated) :
    (c.withEnvironment (c.environment.update x fun _ ↦ mutated)).Placed bound :=
  h.grows (.mutate hx hm) (.refl _ _)

end Context.Placed

namespace Emits

variable {π : Pins} {Γ : Setting} {part : Part} {k k' : Nat} {c c' c₁ c₂ : Context}
  {o o' : Outline}

/-- Variables stay placed. -/
theorem placed (h : Emits π Γ part k c c') (hc : c.Placed Γ.slotBound) : c'.Placed Γ.slotBound :=
  hc.grows h.grows h.handedOut

/-- Behind a branch the variables are those in front of it, and slots were handed out. -/
theorem placed_branch (h₁ : Emits π Γ (.code o) k c.enterScope c₁)
    (h₂ : Emits π Γ (.code o') k' (c₁.enterBlock !Γ.isStatic) c₂) (hc : c.Placed Γ.slotBound) :
    (c₂.leaveBlock !Γ.isStatic).leaveScope.Placed Γ.slotBound :=
  hc.grows (h₁.grows.branch h₂.grows) (h₁.handedOut.trans h₂.handedOut)

/-- In front of the block of a loop its variable is declared, and two slots were handed out. -/
theorem placed_loop {v : Variable} {e : Environment} (hs : v.slot = c.slotCount)
    (hl : v.slot + 1 < Γ.slotBound) (hr : v.readiness = 1)
    (h : Emits π Γ (.code o) k (c.enterScope.addSlots 2) c₁)
    (hd : c₁.environment.declare v = .ok e) (hc : c.Placed Γ.slotBound) :
    (c₁.withEnvironment e).Placed Γ.slotBound :=
  hc.enterScope.grows (h.grows_loop hs hr hd) ((HandedOut.add (hs ▸ hl)).trans h.handedOut)

/-- **All slots that are named are below the bound.** -/
theorem limited (h : Emits π Γ part k c c') (hc : c.Placed Γ.slotBound) :
    part.Limited Γ.slotBound := by
  induction h with
  | nil | declare | chainEnd => trivial
  | append h₁ _ ih₁ ih₂ => exact (ih₁ hc).append (ih₂ (h₁.placed hc))
  | ordinary hop h₁ _ ih₁ ih₂ =>
    refine Outline.limited_singleton.mpr ⟨fun hn ↦ ?_, ih₁ hc, ih₂ (h₁.placed hc)⟩
    rw [Opcode.not_namesSlots_of_isOrdinary hop] at hn
    cases hn
  | load hx | step hx => exact Outline.limited_plain (hc.below.slot_lt hx) trivial
  | introduce _ _ hl _ _ _ _ _ ih =>
    exact Outline.limited_plain (fun _ ↦ hl) (ih (hc.addSlots 1))
  | assign hx hm _ _ _ ih =>
    exact Outline.limited_plain (hc.below.slot_lt hx) (ih (hc.mutate hx hm))
  | selfReference => exact Outline.limited_singleton.mpr ⟨fun hn ↦ (nomatch hn), trivial, trivial⟩
  | superInitializer _ _ _ _ ih | returning _ _ ih =>
    exact Outline.limited_singleton.mpr ⟨fun hn ↦ (nomatch hn), trivial, ih hc⟩
  | ifChain h₁ h₂ _ ih₁ ih₂ ih₃ | elseIf h₁ h₂ _ ih₁ ih₂ ih₃ =>
    exact Outline.limited_singleton.mpr ⟨ih₁ hc.enterScope,
      ih₂ ((h₁.placed hc.enterScope).enterBlock _), ih₃ (h₁.placed_branch h₂ hc)⟩
  | otherwise _ ih => exact Outline.limited_singleton.mpr (ih (hc.enterScope.enterBlock _))
  | repeatWhile h₁ _ ih₁ ih₂ =>
    exact Outline.limited_singleton.mpr
      ⟨ih₁ hc, ih₂ ((h₁.placed hc).enterScope.enterBlock _)⟩
  | forIn hs hl hr _ h₁ hd _ ih₁ ih₂ =>
    exact Outline.limited_singleton.mpr ⟨⟨Nat.lt_of_succ_lt hl, hl⟩,
      ih₁ (hc.enterScope.addSlots 2), ih₂ ((h₁.placed_loop hs hl hr hd hc).enterBlock _)⟩
  | closure _ _ hc₀ _ _ hf₀ hΓ hb₀ _ _ h₁ ih =>
    have hstart := hc₀ hc.distinct
    have hn := h₁.handedOut
    rw [hΓ, hstart.slotCount] at hn
    rw [hΓ] at ih
    exact Outline.limited_singleton.mpr ⟨hstart.slotCount ▸ h₁.grows.slotCount, hn,
      ih ⟨hstart.distinct (hf₀ ▸ hc.distinct.object), hb₀⟩⟩

end Emits

/-! ## Accepted bodies -/

/-- **Slots within the limit.** The frame of an accepted procedure has no more slots than the
options allow and than there are slot numbers. All slots that its code names, in its own frame and
in those of closures, are below both, and the frame of a closure has no more slots than that unless
its arguments and the frame it took over are more, and then it has just these. -/
theorem slots_within_limit {cat : Catalogue} {options : Options} {session session' : Session}
    {c : Class} {m : Member} {tokens : List Token} {record : Record}
    (h : compile cat options session c m tokens = (.ok record, session')) :
    record.header.slotCount ≤ options.slotLimit
    ∧ record.header.slotCount ≤ Slot.count
    ∧ ∃ o, IsOnlyOutline (AnsweredIn cat options session c m tokens) o record.code
      ∧ Outline.Limited (min options.slotLimit Slot.count) o := by
  cases hm : m.isNative with
  | true =>
    have hcount : record.header.slotCount = 0 := by
      unfold compile at h
      rw [hm, if_pos rfl] at h
      cases h
      rfl
    rw [hcount]
    exact ⟨Nat.zero_le _, Nat.zero_le _, [], (isOutline_native hm h _).isOnly h, trivial⟩
  | false =>
    obtain ⟨o, c₀, c₁, he⟩ := compile_emitted hm h
    -- the arguments are within the bound, and so is what is handed out behind them
    have hstart : c₀.slotCount ≤ (Setting.ofMember cat options c m).slotBound :=
      he.isStart.slotCount ▸ he.argumentCount
    have hcount : record.header.slotCount ≤ min options.slotLimit Slot.count := by
      rw [he.slotCount]
      exact he.emits.handedOut.elim id fun heq ↦ heq ▸ hstart
    obtain ⟨hlimit, hnumbers⟩ := Nat.le_min.mp hcount
    exact ⟨hlimit, hnumbers, o, he.isOutline.isOnly h, he.emits.limited ⟨he.distinct, he.below⟩⟩

/-- A body with a closure that captures a variable keeps to a limit of one slot. -/
theorem slots_within_limit_sample :
    ∃ record session', compile Sample.catalogue (Options.withSlotLimit {} 1) .start
        Sample.parentClass Sample.method Sample.capture = (.ok record, session')
      ∧ record.header.slotCount ≤ 1
      ∧ ∃ o, IsOnlyOutline (AnsweredIn Sample.catalogue (Options.withSlotLimit {} 1) .start
          Sample.parentClass Sample.method Sample.capture) o record.code
        ∧ Outline.Limited 1 o := by
  have hcode : (listing? Sample.catalogue (Options.withSlotLimit {} 1) .start Sample.parentClass
      Sample.method Sample.capture).isSome := by
    decide +kernel
  obtain ⟨listing, hlisting⟩ := Option.isSome_iff_exists.mp hcode
  obtain ⟨record, session', h, -⟩ := exists_record hlisting
  obtain ⟨hlimit, -, ho⟩ := slots_within_limit h
  exact ⟨record, session', h, hlimit, ho⟩

/-- A body with a closure whose argument hides the only variable of the frame around it,
`🍰 x 🚂 🍇 x 🚂 🍉 🍉`. -/
def Sample.hiddenCapture : List Token :=
  [ask .declare, word (.reference "x"), word (.identifier Vocabulary.integer), ask .blockOpen,
    word (.reference "x"), word (.identifier Vocabulary.integer), ask .blockClose,
    ask .blockClose]

/-- **The frame of a closure may be larger than the limit.** The slot that a closure takes over from
a hidden variable is not checked. With a limit of one slot a body is accepted in which a closure has
two, one for its argument and one that it took over. -/
theorem closure_beyond_limit :
    ∃ record session', compile Sample.catalogue (Options.withSlotLimit {} 1) .start
        Sample.parentClass Sample.method Sample.hiddenCapture = (.ok record, session')
      ∧ record.code.listing = Outline.entries [.closure 2 [] 1 false 1]
      ∧ (Options.withSlotLimit {} 1).slotLimit < 2 := by
  have hcode : listing? Sample.catalogue (Options.withSlotLimit {} 1) .start Sample.parentClass
      Sample.method Sample.hiddenCapture
      = some (Outline.entries [.closure 2 [] 1 false 1]) := by
    decide +kernel
  obtain ⟨record, session', h, hl⟩ := exists_record hcode
  exact ⟨record, session', h, hl, by decide⟩

end Pictograph
